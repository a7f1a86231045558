import Fieldbus.Binary.Double

/-!
# Documents

A configuration document is a tree of values.  A number or a text that is written correctly but
stands for no value, such as a number that is too large or half of a surrogate pair, is kept as
`none`: it is an error only for a reader who asks for it.
-/

namespace Fieldbus

inductive Document.Number where
  | integer (value : Int)
  | real (value : Double)
  deriving DecidableEq, Repr

inductive Document where
  | null
  | bool (value : Bool)
  | number (value : Option Document.Number)
  | string (value : Option String)
  | array (items : List Document)
  | object (fields : List (Option String × Document))
  deriving Repr

namespace Document

def text (value : String) : Document := .string (some value)

def integer (value : Int) : Document := .number (some (.integer value))

def real (value : Double) : Document := .number (some (.real value))

def record (fields : List (String × Document)) : Document :=
  .object (fields.map fun (name, value) => (some name, value))

def optional {A : Type} (write : A → Document) : Option A → Document
  | none => null
  | some value => write value

def bool? : Document → Option Bool
  | .bool value => some value
  | _ => none

def text? : Document → Option String
  | .string value => value
  | _ => none

/-- A natural number of at most `limit`, written without a fraction or an exponent. -/
def natural? (limit : Nat) : Document → Option Nat
  | .number (some (.integer (.ofNat value))) => if value ≤ limit then some value else none
  | _ => none

def byte? (document : Document) : Option UInt8 :=
  (document.natural? (UInt8.size - 1)).map UInt8.ofNat

def word? (document : Document) : Option UInt16 :=
  (document.natural? (UInt16.size - 1)).map UInt16.ofNat

def integer64? : Document → Option Int64
  | .number (some (.integer value)) =>
    if Int64.minValue.toInt ≤ value ∧ value ≤ Int64.maxValue.toInt then
      some (Int64.ofInt value)
    else none
  | _ => none

/-- Any number. -/
def double? : Document → Option Double
  | .number (some (.integer value)) => some (Double.ofInt value)
  | .number (some (.real value)) => some value
  | _ => none

def nullable? {A : Type} (read : Document → Option A) : Document → Option (Option A)
  | .null => some none
  | document => (read document).map some

def list? {A : Type} (read : Document → Option A) : Document → Option (List A)
  | .array items => items.mapM read
  | _ => none

/-- The name of a choice without content, alone or as the only field of an object that holds
nothing. -/
def tag? : Document → Option String
  | .string name => name
  | .object [(name, .null)] => name
  | _ => none

def choice? {A : Type} (choices : List (String × A)) (document : Document) : Option A :=
  document.tag?.bind fun name => choices.lookup name

/-- The name and the content of a choice that has one. -/
def tagged? : Document → Option (String × Document)
  | .object [(some name, content)] => some (name, content)
  | _ => none

/-- The names of the fields of an object, unless one of them is no text. -/
def named? (fields : List (Option String × Document)) : Option (List (String × Document)) :=
  fields.mapM fun (name, value) => name.map fun name => (name, value)

/-- The value of the field that goes by one of the names, if there is one; two are an error. -/
def slot? (fields : List (String × Document)) (names : List String) :
    Option (Option Document) :=
  match fields.filter fun (name, _) => names.contains name with
  | [] => some none
  | [(_, value)] => some (some value)
  | _ => none

/-- The fields of a record in the order of their names, each with the names it goes by.  A record
is an object, whose other fields are ignored, or an array in the order of the fields. -/
def slots? (names : List (List String)) : Document → Option (List (Option Document))
  | .array items =>
    if items.length ≤ names.length then
      some (items.map some ++ List.replicate (names.length - items.length) none)
    else none
  | .object fields => (named? fields).bind fun fields => names.mapM (slot? fields)
  | _ => none

def required? {A : Type} (read : Document → Option A) (slot : Option Document) : Option A :=
  slot.bind read

/-- The value of a field that has a default. -/
def orElse? {A : Type} (default : A) (read : Document → Option A) : Option Document → Option A
  | none => some default
  | some document => read document

end Document

end Fieldbus
