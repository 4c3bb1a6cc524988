import Mend.Json.Skip

/-! Reading values of a wanted type from JSON texts. A record may be an object, whose unknown
members are read over, or the list of its fields in order. -/
namespace Mend.Json

/-- A reader of values: it takes a text and gives a value and the rest of the text. -/
abbrev Reader (α : Type) := List Char → Except Error (α × List Char)

/-- The error for a value that is not what is `expected`; the value starts with the first character
given. Where the value itself is malformed, that comes first. -/
def mismatch {α : Type} (expected : String) (cs : List Char) : Except Error α := do
  let wrong := fun found => Except.error (Error.invalidType found expected)
  match cs with
  | [] => .error .eofInValue
  | c :: rest =>
    if c = 'n' then
      let _ ← word ['u', 'l', 'l'] rest
      wrong .null
    else if c = 't' then
      let _ ← word ['r', 'u', 'e'] rest
      wrong (.bool true)
    else if c = 'f' then
      let _ ← word ['a', 'l', 's', 'e'] rest
      wrong (.bool false)
    else if c = '-' then
      let (n, _) ← number true rest
      wrong n.found
    else if c.isDigit then
      let (n, _) ← number false (c :: rest)
      wrong n.found
    else if c = '"' then
      let (s, _) ← string rest
      wrong (.string s)
    else if c = '[' then wrong .sequence
    else if c = '\x7b' then wrong .map
    else .error .expectedValue

def text : Reader String := fun cs =>
  match skipSpace cs with
  | '"' :: rest => string rest
  | cs => mismatch "a string" cs

/-- A natural number of at most 64 bits; messages call its type `name`. -/
def natural (name : String) : Reader Nat := fun cs => do
  let accept := fun (n : Number) (rest : List Char) =>
    match n with
    | .natural n => Except.ok (n, rest)
    | .negative n => .error (.invalidValue (.integer n) name)
    | .float x => .error (.invalidType (.float x) name)
  match skipSpace cs with
  | '-' :: rest =>
    let (n, rest) ← number true rest
    accept n rest
  | c :: rest =>
    if c.isDigit then
      let (n, rest) ← number false (c :: rest)
      accept n rest
    else mismatch name (c :: rest)
  | [] => .error .eofInValue

def optional {α : Type} (value : Reader α) : Reader (Option α) := fun cs =>
  match skipSpace cs with
  | 'n' :: rest => (word ['u', 'l', 'l'] rest).map fun (_, rest) => (none, rest)
  | cs => (value cs).map fun (a, rest) => (some a, rest)

/-- Whether a list goes on, and the text from its next element on; `comma` says that an element
stands in front of it. -/
def nextElement (comma : Bool) (cs : List Char) : Except Error (Bool × List Char) :=
  match skipSpace cs with
  | [] => .error .eofInList
  | c :: rest =>
    if c = ']' then .ok (false, c :: rest)
    else if comma then
      if c = ',' then
        match skipSpace rest with
        | [] => .error .eofInValue
        | c :: rest => if c = ']' then .error .trailingComma else .ok (true, c :: rest)
      else .error .expectedCommaOrListEnd
    else .ok (true, c :: rest)

/-- The end of a list that is full. -/
def endOfList (cs : List Char) : Except Error (List Char) :=
  match skipSpace cs with
  | [] => .error .eofInList
  | c :: rest =>
    if c = ']' then .ok rest
    else if c = ',' && (skipSpace rest).head? = some ']' then .error .trailingComma
    else .error .trailingCharacters

/-- The elements of a list from behind its opening bracket on; each takes a character at least. -/
def elements {α : Type} (element : Reader α) : Nat → Bool → Reader (List α)
  | 0, _, _ => .error .eofInList
  | fuel + 1, comma, cs => do
    let (more, cs) ← nextElement comma cs
    if more then
      let (a, cs) ← element cs
      let (as, cs) ← elements element fuel true cs
      .ok (a :: as, cs)
    else .ok ([], cs.drop 1)

def list {α : Type} (element : Reader α) : Reader (List α) := fun cs =>
  match skipSpace cs with
  | '[' :: rest => elements element (rest.length + 1) false rest
  | cs => mismatch "a sequence" cs

/-- A field of a record under construction: a draft `δ` takes up the field's value once. -/
structure Slot (δ : Type) where
  name : String
  required : Bool
  isFilled : δ → Bool
  fill : δ → Reader δ

/-- The slot of a field that a draft keeps in an option. -/
def Slot.ofOption {δ α : Type} (name : String) (required : Bool) (value : Reader α)
    (get : δ → Option α) (set : δ → α → δ) : Slot δ where
  name
  required
  isFilled d := (get d).isSome
  fill d cs := (value cs).map fun (a, rest) => (set d a, rest)

/-- A record type: what messages call it, its fields in order, and an empty draft. -/
structure Shape (δ : Type) where
  name : String
  slots : List (Slot δ)
  empty : δ

namespace Shape

variable {δ : Type} (s : Shape δ)

/-- The fields in order, from a list. A field that is not required may be missing. -/
def positional : List (Slot δ) → Nat → Bool → δ → Reader δ
  | [], _, _, d, cs => .ok (d, cs)
  | slot :: slots, i, comma, d, cs => do
    let (more, cs) ← nextElement comma cs
    if more then
      let (d, cs) ← slot.fill d cs
      positional slots (i + 1) true d cs
    else if slot.required then
      let plural := if s.slots.length = 1 then " element" else " elements"
      .error (.invalidLength i (s.name ++ " with " ++ toString s.slots.length ++ plural))
    else positional slots (i + 1) comma d cs

/-- The key of the next member, if there is one, and the rest of the text behind it. -/
def nextKey (comma : Bool) (cs : List Char) : Except Error (Option (String × List Char)) := do
  let key := fun (rest : List Char) => (string rest).map some
  match skipSpace cs with
  | [] => .error .eofInObject
  | c :: rest =>
    if c = '\x7d' then .ok none
    else if comma then
      if c = ',' then
        match skipSpace rest with
        | [] => .error .eofInValue
        | c :: rest =>
          if c = '"' then key rest
          else if c = '\x7d' then .error .trailingComma
          else .error .keyNotString
      else .error .expectedCommaOrObjectEnd
    else if c = '"' then key rest
    else .error .keyNotString

def colon (cs : List Char) : Except Error (List Char) :=
  match skipSpace cs with
  | [] => .error .eofInObject
  | c :: rest => if c = ':' then .ok rest else .error .expectedColon

/-- The members of an object from behind its opening brace on; each takes a character at least. -/
def members : Nat → Bool → δ → Reader δ
  | 0, _, _, _ => .error .eofInObject
  | fuel + 1, comma, d, cs => do
    match ← nextKey comma cs with
    | none => .ok (d, (skipSpace cs).drop 1)
    | some (key, cs) =>
      match s.slots.find? (·.name = key) with
      | some slot =>
        if slot.isFilled d then .error (.duplicateField key)
        else
          let cs ← colon cs
          let (d, cs) ← slot.fill d cs
          members fuel true d cs
      | none =>
        let cs ← colon cs
        let cs ← skip cs
        members fuel true d cs

/-- A draft of the record with all its required fields. -/
def read : Reader δ := fun cs => do
  match skipSpace cs with
  | [] => .error .eofInValue
  | '[' :: rest =>
    let (d, rest) ← s.positional s.slots 0 false s.empty rest
    .ok (d, ← endOfList rest)
  | '\x7b' :: rest =>
    let (d, rest) ← s.members (rest.length + 1) false s.empty rest
    match s.slots.find? fun slot => slot.required && !slot.isFilled d with
    | some slot => .error (.missingField slot.name)
    | none => .ok (d, rest)
  | cs => mismatch s.name cs

end Shape

/-- A whole text that is one value. -/
def document {α : Type} (value : Reader α) (cs : List Char) : Except Error α := do
  let (a, rest) ← value cs
  if (skipSpace rest).isEmpty then .ok a else .error .trailingCharacters

end Mend.Json
