import Fieldbus.Notice

/-!
# Events

What can be observed of a connection: the calls to its transport, the state of its link, samples,
signs of life of devices, results of calls and notices.
-/

namespace Fieldbus

inductive LinkState where
  | closed
  | opened
  | openFailed
  | shutdown
  deriving DecidableEq, Repr

/-- The value of a point as it is passed on. -/
structure PointSample where
  device : DeviceId
  point : String
  rawType : RawType
  value : PointValue
  deriving DecidableEq, Repr

/-- Why a setting is not changed. -/
inductive SettingError where
  | connectionEnded
  deriving DecidableEq, Repr

namespace SettingError

def message : SettingError → String
  | connectionEnded => RequestError.shutdown.message

end SettingError

inductive CallResult where
  | write (result : Except WriteError Unit)
  | setting (result : Except SettingError Unit)
  | closed

/-- The outcome of the visit to one group during a tick. -/
inductive PollOutcome where
  | notDue
  /-- A write was under way or had just ended. -/
  | deferred
  | polled
  | failed (error : RequestError)
  deriving DecidableEq, Repr

inductive Event where
  | transportOpens
  | exchangeStarts (request : Request)
  | transportCloses
  | linkChanges (state : LinkState)
  | sampled (sample : PointSample)
  | deviceOnline (device : DeviceId)
  | deviceOffline (device : DeviceId)
  /-- A tick is over; the outcomes belong to the groups that were visited. -/
  | tickEnds (outcomes : List (Nat × PollOutcome))
  | schedulerEnds
  | callReturns (call : Nat) (result : CallResult)
  | noticed (notice : Notice)

end Fieldbus
