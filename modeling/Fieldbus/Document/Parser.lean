import Fieldbus.Document.Numeral

/-!
# Reading documents

The grammar of documents: values separated by white space, commas and colons, and text in quotes
with escapes.  Text is kept as characters and 16-bit units, since an escape may stand for half of a
character.
-/

namespace Fieldbus.Document

open Text

def isSpace (c : Char) : Bool := c == ' ' || c == '\t' || c == '\n' || c == '\r'

def skipSpace (text : List Char) : List Char := text.dropWhile isSpace

inductive TextPart where
  | char (c : Char)
  | unit (code : Nat)

def escaped? : Char → Option Char
  | '"' => some '"'
  | '\\' => some '\\'
  | '/' => some '/'
  | 'b' => some (Char.ofNat 8)
  | 'f' => some (Char.ofNat 12)
  | 'n' => some '\n'
  | 'r' => some '\r'
  | 't' => some '\t'
  | _ => none

/-- The parts of a text up to its closing quote, and what follows the quote. -/
def takeText? : List Char → Option (List TextPart × List Char)
  | [] => none
  | '"' :: rest => some ([], rest)
  | '\\' :: 'u' :: a :: b :: c :: d :: rest => do
    let code ← digits? 16 [a, b, c, d]
    let (parts, rest) ← takeText? rest
    return (.unit code :: parts, rest)
  | '\\' :: mark :: rest => do
    let c ← escaped? mark
    let (parts, rest) ← takeText? rest
    return (.char c :: parts, rest)
  | c :: rest =>
    if c.toNat < 0x20 || c == '\\' then none
    else do
      let (parts, rest) ← takeText? rest
      return (.char c :: parts, rest)

def isHighUnit (code : Nat) : Bool := 0xD800 ≤ code && code < 0xDC00

def isLowUnit (code : Nat) : Bool := 0xDC00 ≤ code && code < 0xE000

/-- The characters of a text in which each high unit stands before a low one. -/
def joinParts? : List TextPart → Option (List Char)
  | [] => some []
  | .char c :: rest => (joinParts? rest).map (c :: ·)
  | .unit high :: .unit low :: rest =>
    if isHighUnit high then
      if isLowUnit low then
        let code := 0x10000 + (high - 0xD800) * 0x400 + (low - 0xDC00)
        (joinParts? rest).map (Char.ofNat code :: ·)
      else none
    else if isLowUnit high then none
    else (joinParts? (.unit low :: rest)).map (Char.ofNat high :: ·)
  | .unit code :: rest =>
    if isHighUnit code || isLowUnit code then none
    else (joinParts? rest).map (Char.ofNat code :: ·)

def joinText? (parts : List TextPart) : Option String := (joinParts? parts).map String.ofList

/-- The text after a word that must stand at its start. -/
def afterWord? : (word text : List Char) → Option (List Char)
  | [], text => some text
  | _ :: _, [] => none
  | expected :: word, c :: text => if c = expected then afterWord? word text else none

def literal? (word : String) (value : Document) (text : List Char) :
    Option (Document × List Char) :=
  (afterWord? word.toList text).map fun rest => (value, rest)

mutual

/-- A value at the start of a text and what follows it. -/
def takeValue? : (fuel : Nat) → List Char → Option (Document × List Char)
  | 0, _ => none
  | fuel + 1, text =>
    match skipSpace text with
    | [] => none
    | '[' :: rest =>
      match skipSpace rest with
      | ']' :: rest => some (.array [], rest)
      | rest => (takeItems? fuel rest).map fun (items, rest) => (.array items, rest)
    | '{' :: rest =>
      match skipSpace rest with
      | '}' :: rest => some (.object [], rest)
      | rest => (takeFields? fuel rest).map fun (fields, rest) => (.object fields, rest)
    | '"' :: rest =>
      (takeText? rest).map fun (parts, rest) => (.string (joinText? parts), rest)
    | 't' :: rest => literal? "rue" (.bool true) rest
    | 'f' :: rest => literal? "alse" (.bool false) rest
    | 'n' :: rest => literal? "ull" .null rest
    | text =>
      (Numeral.take? text).map fun (numeral, rest) => (.number numeral.value?, rest)

/-- At least one value and what follows the closing bracket. -/
def takeItems? : (fuel : Nat) → List Char → Option (List Document × List Char)
  | 0, _ => none
  | fuel + 1, text => do
    let (item, rest) ← takeValue? fuel text
    match skipSpace rest with
    | ',' :: rest =>
      let (items, rest) ← takeItems? fuel rest
      return (item :: items, rest)
    | ']' :: rest => return ([item], rest)
    | _ => none

/-- At least one field and what follows the closing brace. -/
def takeFields? : (fuel : Nat) → List Char → Option (List (Option String × Document) × List Char)
  | 0, _ => none
  | fuel + 1, text => do
    let '"' :: rest := skipSpace text | none
    let (name, rest) ← takeText? rest
    let ':' :: rest := skipSpace rest | none
    let (value, rest) ← takeValue? fuel rest
    let field := (joinText? name, value)
    match skipSpace rest with
    | ',' :: rest =>
      let (fields, rest) ← takeFields? fuel rest
      return (field :: fields, rest)
    | '}' :: rest => return ([field], rest)
    | _ => none

end

/-- Each character opens at most one value and one list of values. -/
def parse? (text : String) : Option Document :=
  let chars := text.toList
  match takeValue? (2 * chars.length + 2) chars with
  | some (document, rest) => if (skipSpace rest).isEmpty then some document else none
  | none => none

end Fieldbus.Document
