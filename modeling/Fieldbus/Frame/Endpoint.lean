/-!
# Endpoints

Where the bytes of a framed transport go: a network peer or a serial port.
-/

namespace Fieldbus

inductive DataBits where
  | five
  | six
  | seven
  | eight
  deriving DecidableEq, Repr

inductive FlowControl where
  | none
  | software
  | hardware
  deriving DecidableEq, Repr

inductive StopBits where
  | one
  | two
  deriving DecidableEq, Repr

inductive Parity where
  | none
  | odd
  | even
  deriving DecidableEq, Repr

structure SerialSettings where
  baudRate : UInt32 := 9600
  dataBits : DataBits := .eight
  flowControl : FlowControl := .none
  stopBits : StopBits := .one
  parity : Parity := .none
  deriving DecidableEq, Repr

inductive Endpoint where
  | tcp (address : String)
  | serial (path : String) (settings : SerialSettings)
  deriving DecidableEq, Repr

end Fieldbus
