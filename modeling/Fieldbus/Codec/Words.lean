/-!
# Words

The number that a block of registers holds, high word first, and the two ways in which devices
deviate from that order: exchanged bytes inside each register and reversed registers.
-/

namespace Fieldbus.Words

def swapBytes (word : UInt16) : UInt16 := (word <<< 8) ||| (word >>> 8)

def orderBytes (byteSwap : Bool) (words : List UInt16) : List UInt16 :=
  if byteSwap then words.map swapBytes else words

def orderWords (wordSwap : Bool) (words : List UInt16) : List UInt16 :=
  if wordSwap then words.reverse else words

/-- The words as the digits of a number, one digit a word. -/
def value (words : List UInt16) : Nat :=
  words.foldl (fun high word => high * UInt16.size + word.toNat) 0

/-- The last `count` digits of a number, one digit a word. -/
def ofValue : (count value : Nat) → List UInt16
  | 0, _ => []
  | count + 1, value => ofValue count (value / UInt16.size) ++ [UInt16.ofNat value]

def toBytes (words : List UInt16) : List UInt8 :=
  words.flatMap fun (word : UInt16) => [(word >>> 8).toUInt8, word.toUInt8]

/-- Two bytes to a word; a last byte without a partner is followed by a zero. -/
def ofBytes : List UInt8 → List UInt16
  | [] => []
  | [high] => [high.toUInt16 <<< 8]
  | high :: low :: rest => ((high.toUInt16 <<< 8) ||| low.toUInt16) :: ofBytes rest

theorem swapBytes_swapBytes (word : UInt16) : swapBytes (swapBytes word) = word := by
  unfold swapBytes
  apply UInt16.eq_of_toBitVec_eq
  apply BitVec.eq_of_getLsbD_eq
  intro index hindex
  simp
  grind

theorem orderBytes_orderBytes (byteSwap : Bool) (words : List UInt16) :
    orderBytes byteSwap (orderBytes byteSwap words) = words := by
  cases byteSwap with
  | false => rfl
  | true =>
    simp only [orderBytes, if_true, List.map_map]
    conv => rhs; rw [← List.map_id words]
    exact List.map_congr_left fun word _ => swapBytes_swapBytes word

theorem orderWords_orderWords (wordSwap : Bool) (words : List UInt16) :
    orderWords wordSwap (orderWords wordSwap words) = words := by
  cases wordSwap <;> simp [orderWords]

theorem length_orderBytes (byteSwap : Bool) (words : List UInt16) :
    (orderBytes byteSwap words).length = words.length := by
  cases byteSwap <;> simp [orderBytes]

theorem length_orderWords (wordSwap : Bool) (words : List UInt16) :
    (orderWords wordSwap words).length = words.length := by
  cases wordSwap <;> simp [orderWords]

theorem length_ofValue (count value : Nat) : (ofValue count value).length = count := by
  induction count generalizing value with
  | zero => rfl
  | succ count ih => simp [ofValue, ih]

theorem value_append_singleton (words : List UInt16) (word : UInt16) :
    value (words ++ [word]) = value words * UInt16.size + word.toNat := by
  simp [value]

theorem value_ofValue (count number : Nat) :
    value (ofValue count number) = number % Nat.pow UInt16.size count := by
  induction count generalizing number with
  | zero => simp [ofValue, value, Nat.mod_one]
  | succ count ih =>
    rw [ofValue, value_append_singleton, ih]
    rw [Nat.pow_eq, Nat.pow_eq, Nat.pow_succ', Nat.mod_mul]
    simp only [UInt16.toNat_ofNat']
    rw [Nat.add_comm, Nat.mul_comm]

end Fieldbus.Words
