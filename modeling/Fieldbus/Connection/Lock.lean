/-!
# Fair locks

The users of a connection are its scheduler and the calls through its handle.  A lock follows what
the asynchronous runtime documents of its mutex.  Users wait for it in a queue in the order in which
they have asked; the holder that releases it passes it to the first of them, so that nobody who asks
later can overtake; and a user that is dropped while it waits leaves the queue.
-/

namespace Fieldbus

inductive Actor where
  | scheduler
  | call (id : Nat)
  deriving DecidableEq, Repr

structure FairLock where
  holder : Option Actor := none
  waiting : List Actor := []
  deriving DecidableEq, Repr

namespace FairLock

def isHeldBy (actor : Actor) (lock : FairLock) : Bool := lock.holder == some actor

/-- Asks for the lock, at the end of the queue if it is held. -/
def request (actor : Actor) (lock : FairLock) : FairLock :=
  match lock.holder with
  | none => { lock with holder := some actor }
  | some _ => { lock with waiting := lock.waiting ++ [actor] }

def release (lock : FairLock) : FairLock :=
  ⟨lock.waiting.head?, lock.waiting.tail⟩

/-- The actor goes away, whether it holds the lock, waits for it or neither. -/
def withdraw (actor : Actor) (lock : FairLock) : FairLock :=
  if lock.isHeldBy actor then lock.release
  else { lock with waiting := lock.waiting.filter (· ≠ actor) }

end FairLock

end Fieldbus
