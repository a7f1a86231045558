import Fieldbus.Codec.RegisterCodec
import Mathlib.Algebra.Group.Int.Defs
import Mathlib.Algebra.Group.Nat.Defs

/-!
# The codec in words of fixed width

A machine does not take an item outside a list, shift a word by its width or compute a result that
its type cannot hold: it stops.  Here each such step of the codec is a check, so that a computation
ends with a value, with an error that its caller is told, or with a fault.  Steps that every
machine can do are those of the codec.
-/

namespace Fieldbus.Codec

inductive Fault where
  /-- An index or the end of a slice is out of bounds. -/
  | bounds
  /-- A word is shifted by its width or more. -/
  | shift
  /-- The result of a calculation leaves its type. -/
  | overflow
  deriving DecidableEq, Repr

/-- Why a computation has no value. -/
inductive Halt (E : Type) where
  | fault (fault : Fault)
  | refused (error : E)
  deriving DecidableEq, Repr

abbrev Checked (E A : Type) : Type := Except (Halt E) A

namespace Checked

section Steps

variable {E A B : Type} {width : Nat}

def fault (fault : Fault) : Checked E A := .error (.fault fault)

def refuse (error : E) : Checked E A := .error (.refused error)

/-- A computation that has no step of the checked kinds. -/
def ofExcept (result : Except E A) : Checked E A := result.mapError .refused

def item (items : List A) (index : Nat) : Checked E A :=
  match items[index]? with
  | some item => .ok item
  | none => fault .bounds

def front (items : List A) (count : Nat) : Checked E (List A) :=
  if count ≤ items.length then .ok (items.take count) else fault .bounds

def shiftLeft (bits : BitVec width) (amount : Nat) : Checked E (BitVec width) :=
  if amount < width then .ok (bits <<< amount) else fault .shift

def shiftRight (bits : BitVec width) (amount : Nat) : Checked E (BitVec width) :=
  if amount < width then .ok (bits >>> amount) else fault .shift

def multiply (left right : BitVec width) : Checked E (BitVec width) :=
  if left.umulOverflow right then fault .overflow else .ok (left * right)

def subtract (left right : BitVec width) : Checked E (BitVec width) :=
  if left.usubOverflow right then fault .overflow else .ok (left - right)

def subtractSigned (left right : BitVec width) : Checked E (BitVec width) :=
  if left.ssubOverflow right then fault .overflow else .ok (left - right)

@[simp]
theorem ofExcept_ok (value : A) : (ofExcept (.ok value) : Checked E A) = .ok value := rfl

@[simp]
theorem ok_bind (value : A) (next : A → Checked E B) :
    (Except.ok value >>= next) = next value := rfl

@[simp]
theorem item_zero (first : A) (rest : List A) :
    (item (first :: rest) 0 : Checked E A) = .ok first := by
  rw [item, List.getElem?_cons_zero]

theorem ofExcept_ne_fault (result : Except E A) (cause : Fault) :
    ofExcept result ≠ fault cause := by
  intro hfault
  cases result with
  | error error => cases hfault
  | ok value => cases hfault

theorem shiftLeft_of_lt {bits : BitVec width} {amount : Nat} (hamount : amount < width) :
    (shiftLeft bits amount : Checked E _) = .ok (bits <<< amount) :=
  if_pos hamount

theorem shiftRight_of_lt {bits : BitVec width} {amount : Nat} (hamount : amount < width) :
    (shiftRight bits amount : Checked E _) = .ok (bits >>> amount) :=
  if_pos hamount

theorem front_of_le {items : List A} {count : Nat} (hcount : count ≤ items.length) :
    (front items count : Checked E _) = .ok (items.take count) :=
  if_pos hcount

theorem subtract_of_le {left right : BitVec width} (hle : right ≤ left) :
    (subtract left right : Checked E _) = .ok (left - right) := by
  rw [subtract, if_neg]
  simpa [BitVec.usubOverflow] using BitVec.le_def.mp hle

theorem multiply_of_lt {left right : BitVec width} (hlt : left.toNat * right.toNat < 2 ^ width) :
    (multiply left right : Checked E _) = .ok (left * right) := by
  rw [multiply, if_neg]
  simpa [BitVec.umulOverflow] using hlt

theorem subtractSigned_of_bounds {left right : BitVec width}
    (hbounds : -2 ^ (width - 1) ≤ left.toInt - right.toInt ∧
      left.toInt - right.toInt < 2 ^ (width - 1)) :
    (subtractSigned left right : Checked E _) = .ok (left - right) := by
  rw [subtractSigned, if_neg]
  simpa [BitVec.ssubOverflow] using And.symm hbounds

end Steps

section Fields

variable {E : Type}

def fieldMask (field : BitField) : Checked E (BitVec 16) := do
  let power ← shiftLeft (1 : BitVec 32) field.length.toNat
  let ones ← subtract power 1
  shiftLeft (ones.setWidth 16) field.offset.toNat

def extractBits (field : BitField) (word : UInt16) : Checked E UInt16 := do
  let mask ← fieldMask field
  let bits ← shiftRight (word.toBitVec &&& mask) field.offset.toNat
  return .ofBitVec bits

def mergeBits (field : BitField) (word value : UInt16) : Checked E UInt16 := do
  let mask ← fieldMask field
  let bits ← shiftLeft value.toBitVec field.offset.toNat
  return .ofBitVec ((word.toBitVec &&& ~~~mask) ||| (bits &&& mask))

/-- The largest number of a field, in a signed accumulator. -/
def maxValue (field : BitField) : Checked E Int := do
  let power ← shiftLeft (1 : BitVec 128) field.length.toNat
  let largest ← subtractSigned power 1
  return largest.toInt

end Fields

section Numbers

variable {E : Type}

/-- The number of some words, the high one first. -/
def join (words : List UInt16) : Checked E (BitVec 64) :=
  words.foldlM (fun high word => do
    let shifted ← shiftLeft high 16
    return shifted ||| word.toBitVec.setWidth 64) 0

/-- The word at a place of a number, counted from the lowest one. -/
def word (bits : BitVec 64) (place : Nat) : Checked E UInt16 := do
  let amount ← multiply (16 : BitVec 32) (.ofNat 32 place)
  let shifted ← shiftRight bits amount.toNat
  return .ofBitVec (shifted.setWidth 16)

def split (bits : BitVec 64) (registers : UInt16) : Checked E (List UInt16) :=
  (List.range registers.toNat).reverse.mapM (word bits)

end Numbers

/-- Two bytes to a chunk, the last one perhaps alone. -/
def chunks : List UInt8 → List (List UInt8)
  | [] => []
  | [high] => [[high]]
  | high :: low :: rest => [high, low] :: chunks rest

def chunkWord {E : Type} (chunk : List UInt8) : Checked E UInt16 := do
  let high ← item chunk 0
  let low ← item chunk 1
  return (high.toUInt16 <<< 8) ||| low.toUInt16

/-- Sizes are counted in words of 32 bits, which are the narrowest. -/
def encodeText (value : PointValue) (registers : UInt16) :
    Checked EncodingError (List UInt16) := do
  let bytes ← match value with
    | .text text => pure (textBytes text)
    | .bytes bytes => pure bytes
    | other => refuse (.typeMismatch (.string registers) other.kind)
  let capacity ← multiply (registers.toBitVec.setWidth 32) 2
  if capacity.toNat < bytes.length then
    refuse (.stringTooLong bytes.length registers)
  else
    (chunks (bytes ++ List.replicate (capacity.toNat - bytes.length) 0)).mapM chunkWord

def decodeWords (point : Point) (words : List UInt16) : Checked DecodeError PointValue := do
  let scaled := divideBy point.scale
  let joined := join (Words.orderWords point.wordSwap words)
  match point.rawType, point.bits with
  | .string _, _ => return decodeText words
  | .bool, _ => return .bool ((← item words 0) != 0)
  | .uint16, some field | .int16, some field =>
    return scaled (unsigned (← extractBits field (← item words 0)).toNat)
  | .uint16, none => return scaled (unsigned (← item words 0).toNat)
  | .int16, none => return scaled (signed 16 (← item words 0).toNat)
  | .uint32, _ => return scaled (unsigned ((← joined).setWidth 32).toNat)
  | .int32, _ => return scaled (signed 32 ((← joined).setWidth 32).toNat)
  | .float32, _ =>
    return scaled (.float (Double.ofSingleBits (.ofBitVec ((← joined).setWidth 32))))
  | .uint64, _ => return scaled (unsigned (← joined).toNat)
  | .int64, _ => return scaled (signed 64 (← joined).toNat)
  | .float64, _ => return scaled (.float ⟨.ofBitVec (← joined)⟩)

def decode (point : Point) (values : WireValues) : Checked DecodeError PointValue := do
  let required := point.quantity.toNat
  if values.length < required then
    refuse (.insufficientValues required values.length)
  else
    match values with
    | .bits bits =>
      if !point.registerClass.isBit then refuse (.classMismatch point.registerClass)
      else return .bool (← item bits 0)
    | .words words =>
      if point.registerClass.isBit then refuse (.classMismatch point.registerClass)
      else decodeWords point (Words.orderBytes point.byteSwap (← front words required))

def encodeField (point : Point) (field : BitField) (value : PointValue)
    (current : Option UInt16) : Checked EncodingError UInt16 := do
  let some current := current | refuse .missingCurrentValue
  let current := if point.byteSwap then Words.swapBytes current else current
  let plain ← ofExcept (unscaled point.scale value)
  let number ← ofExcept (toInteger point.rawType plain)
  let largest ← maxValue field
  if number < 0 ∨ largest < number then
    refuse (.bitFieldOverflow (Int64.ofInt number) field.length)
  else
    let merged ← mergeBits field current (UInt16.ofNat number.toNat)
    return if point.byteSwap then Words.swapBytes merged else merged

def encode (point : Point) (value : PointValue) (current : Option UInt16) :
    Checked EncodingError WireValues := do
  if point.registerClass.isBit then
    return .bits [← ofExcept (toBool point.rawType value)]
  match point.bits, point.rawType with
  | some field, _ => return .words [← encodeField point field value current]
  | none, .string registers =>
    return .words (Words.orderBytes point.byteSwap (← encodeText value registers))
  | none, rawType =>
    let pattern ← ofExcept (encodeNumber point value)
    let words ← split (.ofNat 64 pattern) rawType.registers
    return .words (Words.orderBytes point.byteSwap (Words.orderWords point.wordSwap words))

end Checked

end Fieldbus.Codec
