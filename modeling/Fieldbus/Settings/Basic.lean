import Fieldbus.Time

/-!
# Settings

What can be configured about a connection, and the values that stand in for what is left out.
-/

namespace Fieldbus

/-- How much of the transactions and point values is logged. -/
inductive AppLevel where
  | nothing
  | header
  | dataValues
  deriving DecidableEq, Repr

namespace AppLevel

def showsHeader : AppLevel → Bool
  | nothing => false
  | header | dataValues => true

def showsValues : AppLevel → Bool
  | nothing | header => false
  | dataValues => true

end AppLevel

/-- How much of the bytes on the channel is logged. -/
inductive PhysicalLevel where
  | nothing
  | length
  | data
  deriving DecidableEq, Repr

structure DecodeLevel where
  app : AppLevel := .nothing
  physical : PhysicalLevel := .nothing
  deriving DecidableEq, Repr

structure LinkSettings where
  /-- Bounds a transaction, and the opening of the transport. -/
  timeout : Nanoseconds := 1000 * millisecond
  /-- How often a write is attempted again after a transport error. -/
  retry : UInt8 := 3
  /-- The least time between two transactions, and the quiet time after a write. -/
  minInterval : Nanoseconds := 100 * millisecond
  maxBatchSpan : UInt16 := 32
  maxWriteSpan : UInt16 := 32
  /-- Keep the transport open until an error occurs. -/
  keepAlive : Bool := true
  /-- The longest polling period that failures lead to. -/
  maxBackoff : Nanoseconds := 60 * second
  deriving DecidableEq, Repr

def defaultTick : Nanoseconds := second

structure ConnectionSettings where
  name : String := "connection"
  /-- Poll from the start. -/
  enabled : Bool := true
  tick : Nanoseconds := defaultTick
  link : LinkSettings := {}
  decode : DecodeLevel := {}
  deriving DecidableEq, Repr

/-- The time between two ticks; a zero tick stands for the usual one. -/
def ConnectionSettings.tickPeriod (settings : ConnectionSettings) : Nanoseconds :=
  if settings.tick = 0 then defaultTick else settings.tick

end Fieldbus
