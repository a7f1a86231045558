import Fieldbus.Codec.Error
import Fieldbus.Codec.Words
import Fieldbus.Register.Value

/-!
# Text in registers

Two bytes in each register, the high byte first.  Zero bytes at the end are padding.  Bytes that
are not text stay bytes.
-/

namespace Fieldbus.Codec

def textBytes (text : String) : List UInt8 := text.toByteArray.data.toList

def ofBytes (bytes : List UInt8) : PointValue :=
  match String.fromUTF8? ⟨bytes.toArray⟩ with
  | some text => .text text
  | none => .bytes bytes

def dropPadding (bytes : List UInt8) : List UInt8 :=
  (bytes.reverse.dropWhile (· == 0)).reverse

def decodeText (words : List UInt16) : PointValue :=
  ofBytes (dropPadding (Words.toBytes words))

def encodeText (value : PointValue) (registers : UInt16) :
    Except EncodingError (List UInt16) := do
  let bytes ← match value with
    | .text text => pure (textBytes text)
    | .bytes bytes => pure bytes
    | other => throw (.typeMismatch (.string registers) other.kind)
  let capacity := 2 * registers.toNat
  if capacity < bytes.length then
    throw (.stringTooLong bytes.length registers)
  return Words.ofBytes (bytes ++ List.replicate (capacity - bytes.length) 0)

end Fieldbus.Codec
