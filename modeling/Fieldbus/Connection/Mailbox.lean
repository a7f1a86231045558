import Fieldbus.Settings.Basic

/-!
# Mailboxes

Commands wait in a mailbox for the scheduler.  A mailbox follows what the asynchronous runtime
documents of its bounded channel.  Commands are taken in the order in which they were posted; when
it is full, calls wait for room in the order in which they came; and after its receiver has gone
nothing can be posted any more.
-/

namespace Fieldbus

inductive Setting where
  | enable
  | disable
  | decode (level : DecodeLevel)
  deriving DecidableEq, Repr

inductive Command where
  | set (setting : Setting)
  | close
  deriving DecidableEq, Repr

structure Mailbox where
  commands : List Command := []
  /-- The calls that have something to post, in order. -/
  senders : List Nat := []
  /-- The scheduler still takes commands. -/
  receiving : Bool := true
  deriving DecidableEq, Repr

namespace Mailbox

/-- The number of commands that the channel is made for. -/
def capacity : Nat := 16

def join (call : Nat) (mailbox : Mailbox) : Mailbox :=
  { mailbox with senders := mailbox.senders ++ [call] }

def leave (call : Nat) (mailbox : Mailbox) : Mailbox :=
  { mailbox with senders := mailbox.senders.filter (· ≠ call) }

/-- There is room for this call and for all calls before it. -/
def hasRoomFor (call : Nat) (mailbox : Mailbox) : Bool :=
  mailbox.senders.idxOf call + mailbox.commands.length < capacity

def post (call : Nat) (command : Command) (mailbox : Mailbox) : Mailbox :=
  { mailbox.leave call with commands := mailbox.commands ++ [command] }

/-- The oldest command and the mailbox without it. -/
def take? (mailbox : Mailbox) : Option (Command × Mailbox) :=
  match mailbox.commands with
  | [] => none
  | command :: rest => some (command, { mailbox with commands := rest })

/-- The scheduler takes no more commands, and those that are left are lost. -/
def stopReceiving (mailbox : Mailbox) : Mailbox :=
  { mailbox with receiving := false, commands := [] }

end Mailbox

end Fieldbus
