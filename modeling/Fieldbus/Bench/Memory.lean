import Fieldbus.Link.Request

/-!
# Device memory

A device as a memory of bits and words, zero at first.  Addresses wrap around at the end of the
address space.
-/

namespace Fieldbus

structure Memory where
  bit : UnitId → RegisterClass → UInt16 → Bool
  word : UnitId → RegisterClass → UInt16 → UInt16

namespace Memory

def zero : Memory := ⟨fun _ _ _ => false, fun _ _ _ => 0⟩

/-- The values of a block of addresses, overridden from `start` on. -/
def override {A : Type} (values : List A) (start : UInt16) (old : UInt16 → A)
    (address : UInt16) : A :=
  values.getD (address - start).toNat (old address)

def store (unit : UnitId) (registerClass : RegisterClass) (start : UInt16) (values : WireValues)
    (memory : Memory) : Memory :=
  match values with
  | .bits bits =>
    { memory with
      bit := fun otherUnit otherClass =>
        if otherUnit = unit ∧ otherClass = registerClass then
          override bits start (memory.bit otherUnit otherClass)
        else memory.bit otherUnit otherClass }
  | .words words =>
    { memory with
      word := fun otherUnit otherClass =>
        if otherUnit = unit ∧ otherClass = registerClass then
          override words start (memory.word otherUnit otherClass)
        else memory.word otherUnit otherClass }

def addresses (range : AddressRange) : List UInt16 :=
  (List.range range.count.toNat).map fun offset => range.start + UInt16.ofNat offset

def read (request : ReadRequest) (memory : Memory) : Response :=
  if request.registerClass.isBit then
    .bits ((addresses request.range).map (memory.bit request.unit request.registerClass))
  else
    .registers ((addresses request.range).map (memory.word request.unit request.registerClass))

/-- What the device does with a request, and its answer. -/
def answer (request : Request) (memory : Memory) : Memory × Response :=
  match request with
  | .read request => (memory, memory.read request)
  | .write request =>
    (memory.store request.unit request.registerClass request.start request.values, .written)

end Memory

end Fieldbus
