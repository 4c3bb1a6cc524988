import Mend.Json.Lexical

/-! Reading over values that nobody asked for. They have to be well formed, however deep. -/
namespace Mend.Json

/-- A key and its colon, from in front of the key on. -/
def skipKey (cs : List Char) : Except Error (List Char) := do
  match skipSpace cs with
  | [] => .error .eofInObject
  | c :: rest =>
    if c = '"' then
      let (_, rest) ← skipString (rest.length + 1) rest
      match skipSpace rest with
      | [] => .error .eofInObject
      | c :: rest => if c = ':' then .ok rest else .error .expectedColon
    else .error .keyNotString

/- Each call of `skipValue` reads at least one character or fails, and so does every second call of
the other two, so that twice the length of the text is fuel enough. -/
mutual

def skipValue : Nat → List Char → Except Error (List Char)
  | 0, _ => .error .eofInValue
  | fuel + 1, cs =>
    match skipSpace cs with
    | [] => .error .eofInValue
    | c :: rest =>
      if c = 'n' then (word ['u', 'l', 'l'] rest).map (·.2)
      else if c = 't' then (word ['r', 'u', 'e'] rest).map (·.2)
      else if c = 'f' then (word ['a', 'l', 's', 'e'] rest).map (·.2)
      else if c = '-' then (skipNumber rest).map (·.2)
      else if c.isDigit then (skipNumber (c :: rest)).map (·.2)
      else if c = '"' then (skipString (rest.length + 1) rest).map (·.2)
      else if c = '[' then skipElements fuel false rest
      else if c = '\x7b' then skipMembers fuel false rest
      else .error .expectedValue

/-- The rest of a list; `comma` says that an element stands in front of it. -/
def skipElements : Nat → Bool → List Char → Except Error (List Char)
  | 0, _, _ => .error .eofInList
  | fuel + 1, comma, cs =>
    match skipSpace cs with
    | [] => .error .eofInList
    | c :: rest =>
      if c = ']' then .ok rest
      else if comma then
        if c = ',' then
          match skipValue fuel rest with
          | .ok rest => skipElements fuel true rest
          | .error e => .error e
        else .error .expectedCommaOrListEnd
      else
        match skipValue fuel (c :: rest) with
        | .ok rest => skipElements fuel true rest
        | .error e => .error e

/-- The rest of an object; `comma` says that a member stands in front of it. -/
def skipMembers : Nat → Bool → List Char → Except Error (List Char)
  | 0, _, _ => .error .eofInObject
  | fuel + 1, comma, cs =>
    match skipSpace cs with
    | [] => .error .eofInObject
    | c :: rest =>
      if c = '\x7d' then .ok rest
      else if comma && c ≠ ',' then .error .expectedCommaOrObjectEnd
      else
        match skipKey (if comma then rest else c :: rest) with
        | .ok rest =>
          match skipValue fuel rest with
          | .ok rest => skipMembers fuel true rest
          | .error e => .error e
        | .error e => .error e

end

/-- Read over one value. -/
def skip (cs : List Char) : Except Error (List Char) := skipValue (2 * cs.length + 2) cs

end Mend.Json
