import Fieldbus.Document.Basic
import Fieldbus.Frame.Endpoint
import Fieldbus.Point.DurationText
import Fieldbus.Settings.Basic

/-!
# Settings in documents

Durations are written in milliseconds and read as milliseconds or as duration text.
-/

namespace Fieldbus

open Document (slots? required? orElse? record)

/-- The largest number of milliseconds that is written. -/
def maxMilliseconds : Nat := UInt64.size - 1

def millisecondsDocument (duration : Nanoseconds) : Document :=
  .integer (min (duration / millisecond : Nat) maxMilliseconds : Nat)

def durationOfText? (text : String) : Option Nanoseconds :=
  match DurationText.parse text with
  | .ok duration => some duration
  | .error _ => none

def duration? (document : Document) : Option Nanoseconds :=
  ((document.natural? maxMilliseconds).map (· * millisecond)).or
    (document.text?.bind durationOfText?)

namespace AppLevel

def names : List (String × AppLevel) :=
  [("Nothing", nothing), ("Header", header), ("DataValues", dataValues)]

def name : AppLevel → String
  | nothing => "Nothing"
  | header => "Header"
  | dataValues => "DataValues"

end AppLevel

namespace PhysicalLevel

def names : List (String × PhysicalLevel) :=
  [("Nothing", nothing), ("Length", length), ("Data", data)]

def name : PhysicalLevel → String
  | nothing => "Nothing"
  | length => "Length"
  | data => "Data"

end PhysicalLevel

namespace DecodeLevel

def toDocument (level : DecodeLevel) : Document :=
  record [("app", .text level.app.name), ("physical", .text level.physical.name)]

def ofDocument? (document : Document) : Option DecodeLevel := do
  let [app, physical] ← document.slots? [["app"], ["physical"]] | none
  return ⟨← required? (Document.choice? AppLevel.names) app,
    ← required? (Document.choice? PhysicalLevel.names) physical⟩

end DecodeLevel

namespace LinkSettings

def fieldNames : List (List String) :=
  [["timeout"], ["retry"], ["minInterval"], ["maxBatchSpan"], ["maxWriteSpan"], ["keepAlive"],
   ["maxBackoff"]]

def toDocument (settings : LinkSettings) : Document :=
  record [
    ("timeout", millisecondsDocument settings.timeout), ("retry", .integer settings.retry.toNat),
    ("minInterval", millisecondsDocument settings.minInterval),
    ("maxBatchSpan", .integer settings.maxBatchSpan.toNat),
    ("maxWriteSpan", .integer settings.maxWriteSpan.toNat),
    ("keepAlive", .bool settings.keepAlive),
    ("maxBackoff", millisecondsDocument settings.maxBackoff)]

def ofDocument? (document : Document) : Option LinkSettings := do
  let [timeout, retry, minInterval, maxBatchSpan, maxWriteSpan, keepAlive, maxBackoff]
    ← document.slots? fieldNames | none
  let initial : LinkSettings := {}
  return {
    timeout := ← orElse? initial.timeout duration? timeout
    retry := ← orElse? initial.retry Document.byte? retry
    minInterval := ← orElse? initial.minInterval duration? minInterval
    maxBatchSpan := ← orElse? initial.maxBatchSpan Document.word? maxBatchSpan
    maxWriteSpan := ← orElse? initial.maxWriteSpan Document.word? maxWriteSpan
    keepAlive := ← orElse? initial.keepAlive Document.bool? keepAlive
    maxBackoff := ← orElse? initial.maxBackoff duration? maxBackoff }

end LinkSettings

namespace ConnectionSettings

def fieldNames : List (List String) := [["name"], ["enabled"], ["tick"], ["link"], ["decode"]]

def toDocument (settings : ConnectionSettings) : Document :=
  record [
    ("name", .text settings.name), ("enabled", .bool settings.enabled),
    ("tick", millisecondsDocument settings.tick), ("link", settings.link.toDocument),
    ("decode", settings.decode.toDocument)]

def ofDocument? (document : Document) : Option ConnectionSettings := do
  let [name, enabled, tick, link, decode] ← document.slots? fieldNames | none
  let initial : ConnectionSettings := {}
  return {
    name := ← orElse? initial.name Document.text? name
    enabled := ← orElse? initial.enabled Document.bool? enabled
    tick := ← orElse? initial.tick duration? tick
    link := ← orElse? initial.link LinkSettings.ofDocument? link
    decode := ← orElse? initial.decode DecodeLevel.ofDocument? decode }

end ConnectionSettings

namespace DataBits

def name : DataBits → String
  | five => "Five"
  | six => "Six"
  | seven => "Seven"
  | eight => "Eight"

def names : List (String × DataBits) :=
  [five, six, seven, eight].map fun bits => (bits.name, bits)

end DataBits

namespace FlowControl

def name : FlowControl → String
  | none => "None"
  | software => "Software"
  | hardware => "Hardware"

def names : List (String × FlowControl) :=
  [none, software, hardware].map fun control => (control.name, control)

end FlowControl

namespace StopBits

def name : StopBits → String
  | one => "One"
  | two => "Two"

def names : List (String × StopBits) := [one, two].map fun bits => (bits.name, bits)

end StopBits

namespace Parity

def name : Parity → String
  | none => "None"
  | odd => "Odd"
  | even => "Even"

def names : List (String × Parity) := [none, odd, even].map fun parity => (parity.name, parity)

end Parity

namespace SerialSettings

def fieldNames : List (List String) :=
  [["baudRate"], ["dataBits"], ["flowControl"], ["stopBits"], ["parity"]]

def toDocument (settings : SerialSettings) : Document :=
  record [
    ("baudRate", .integer settings.baudRate.toNat), ("dataBits", .text settings.dataBits.name),
    ("flowControl", .text settings.flowControl.name), ("stopBits", .text settings.stopBits.name),
    ("parity", .text settings.parity.name)]

def baudRate? (document : Document) : Option UInt32 :=
  (document.natural? (UInt32.size - 1)).map UInt32.ofNat

def ofDocument? (document : Document) : Option SerialSettings := do
  let [baudRate, dataBits, flowControl, stopBits, parity] ← document.slots? fieldNames | none
  let initial : SerialSettings := {}
  return {
    baudRate := ← orElse? initial.baudRate baudRate? baudRate
    dataBits := ← orElse? initial.dataBits (Document.choice? DataBits.names) dataBits
    flowControl := ← orElse? initial.flowControl (Document.choice? FlowControl.names) flowControl
    stopBits := ← orElse? initial.stopBits (Document.choice? StopBits.names) stopBits
    parity := ← orElse? initial.parity (Document.choice? Parity.names) parity }

end SerialSettings

namespace Endpoint

def toDocument : Endpoint → Document
  | tcp address => record [("tcp", .text address)]
  | serial path settings =>
    record [("serial", record [("path", .text path), ("settings", settings.toDocument)])]

def serialOfDocument? (document : Document) : Option Endpoint := do
  let [path, settings] ← document.slots? [["path"], ["settings"]] | none
  return .serial (← required? Document.text? path)
    (← required? SerialSettings.ofDocument? settings)

def ofDocument? (document : Document) : Option Endpoint :=
  match document.tagged? with
  | some ("tcp", address) => address.text?.map tcp
  | some ("serial", content) => serialOfDocument? content
  | _ => none

end Endpoint

end Fieldbus
