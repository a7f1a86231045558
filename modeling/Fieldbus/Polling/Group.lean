import Fieldbus.Link.Request
import Fieldbus.Point.Basic
import Fieldbus.Polling.Backoff

/-!
# Poll groups

A group is a block of addresses that is read in one transaction, with the points inside it and the
record of its polls.
-/

namespace Fieldbus

structure PollGroup where
  /-- The place of the group in the order in which groups were built. -/
  index : Nat
  unit : UnitId
  registerClass : RegisterClass
  range : AddressRange
  points : List Point
  period : Nanoseconds
  lastPollAt : Option Instant := none
  /-- Failed polls since the last success. -/
  failures : Nat := 0
  deriving DecidableEq, Repr

namespace PollGroup

def label (index : Nat) : String := s!"group {index}"

/-- The groups poll the same points in the same way; the record of their polls does not count. -/
def sameTask (left right : PollGroup) : Bool :=
  left.index == right.index && left.unit == right.unit &&
    left.registerClass == right.registerClass && left.range == right.range &&
    left.points == right.points && left.period == right.period

/-- The devices of the points, each once, in the order of the points. -/
def devices (group : PollGroup) : List DeviceId :=
  (group.points.map (·.device)).eraseDups

def readRequest (group : PollGroup) : ReadRequest :=
  ⟨group.unit, group.registerClass, group.range⟩

/-- The failures are so many that no waiting time can be expressed. -/
def overflows (ceiling : Nanoseconds) (group : PollGroup) : Bool :=
  (backoff? group.period group.failures ceiling).isNone

/-- The time between two polls; on overflow the period itself. -/
def effectivePeriod (ceiling : Nanoseconds) (group : PollGroup) : Nanoseconds :=
  (backoff? group.period group.failures ceiling).getD group.period

/-- The next poll, for a group that has been polled. -/
def nextPollAt? (ceiling : Nanoseconds) (group : PollGroup) : Option Instant :=
  group.lastPollAt.map fun last => last + group.effectivePeriod ceiling

/-- A group that has never been polled is due. -/
def isDue (now : Instant) (ceiling : Nanoseconds) (group : PollGroup) : Bool :=
  match group.nextPollAt? ceiling with
  | none => true
  | some next => next ≤ now

/-- The question whether a group is due starts the count of failures anew when it overflows. -/
def forgets (ceiling : Nanoseconds) (group : PollGroup) : Bool :=
  group.lastPollAt.isSome && group.overflows ceiling

/-- The group after that question. -/
def asked (ceiling : Nanoseconds) (group : PollGroup) : PollGroup :=
  if group.forgets ceiling then { group with failures := 0 } else group

/-- The count of failures stops at the largest 32-bit number. -/
def maxFailures : Nat := UInt32.size - 1

def recordSuccess (now : Instant) (group : PollGroup) : PollGroup :=
  { group with failures := 0, lastPollAt := some now }

def recordFailure (now : Instant) (group : PollGroup) : PollGroup :=
  { group with failures := min (group.failures + 1) maxFailures, lastPollAt := some now }

end PollGroup

end Fieldbus
