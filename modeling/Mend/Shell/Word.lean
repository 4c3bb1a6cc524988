/-! Words and operators of shell scripts. -/
namespace Mend.Shell

/-- Text as it stands, or the value of a parameter. -/
inductive Piece
  | literal (cs : List Char)
  | parameter (name : String)

/-- A piece of a word; what is quoted is not split into fields. -/
structure Part where
  piece : Piece
  quoted : Bool

abbrev Word := List Part

/-- Redirections may name the input or output that they are about by a number. -/
inductive Token
  | word (w : Word)
  | redirection (number? : Option Nat) (operator : String)
  | operator (s : String)
  | newline

def isNameChar (c : Char) : Bool := c.isAlphanum || c = '_'

def isSpecial (c : Char) : Bool := c.isDigit || c ∈ ['*', '@', '#', '?', '$', '!', '-']

/-- What a dollar sign stands for, and the text behind it. -/
def parameter (cs : List Char) : Piece × List Char :=
  match cs with
  | '\x7b' :: rest =>
    (.parameter (String.ofList (rest.takeWhile (· ≠ '\x7d'))), (rest.dropWhile (· ≠ '\x7d')).drop 1)
  | c :: rest =>
    if isSpecial c then (.parameter c.toString, rest)
    else if isNameChar c then
      (.parameter (String.ofList (cs.takeWhile isNameChar)), cs.dropWhile isNameChar)
    else (.literal ['$'], cs)
  | [] => (.literal ['$'], [])

/-- The parts up to a closing double quote, where a backslash only quotes what would mean
something. -/
def quotedParts : Nat → List Char → Option (Word × List Char)
  | 0, _ | _ + 1, [] => none
  | fuel + 1, c :: cs =>
    let go := fun (p : Piece) (rest : List Char) =>
      (quotedParts fuel rest).map fun (w, rest) => (⟨p, true⟩ :: w, rest)
    if c = '"' then some ([⟨.literal [], true⟩], cs)
    else if c = '\\' then
      match cs with
      | '\n' :: rest => quotedParts fuel rest
      | d :: rest =>
        if d ∈ ['$', '\x60', '"', '\\'] then go (.literal [d]) rest else go (.literal [c, d]) rest
      | [] => none
    else if c = '$' then
      let (p, rest) := parameter cs
      go p rest
    else go (.literal [c]) cs

def isOperatorChar (c : Char) : Bool := c ∈ [';', '&', '|', '<', '>', '(', ')']

/-- The parts of a word, up to a blank or an operator. -/
def wordParts : Nat → List Char → Option (Word × List Char)
  | 0, _ => none
  | _ + 1, [] => some ([], [])
  | fuel + 1, c :: cs =>
    let go := fun (w : Word) (rest : List Char) =>
      (wordParts fuel rest).map fun (v, rest) => (w ++ v, rest)
    if c = ' ' || c = '\t' || c = '\n' || isOperatorChar c then some ([], c :: cs)
    else if c = '\\' then
      match cs with
      | '\n' :: rest => go [] rest
      | d :: rest => go [⟨.literal [d], true⟩] rest
      | [] => go [⟨.literal ['\\'], true⟩] []
    else if c = '\'' then
      let body := cs.takeWhile (· ≠ '\'')
      if body.length = cs.length then none
      else go [⟨.literal body, true⟩] (cs.drop (body.length + 1))
    else if c = '"' then
      match quotedParts (cs.length + 1) cs with
      | some (w, rest) => go w rest
      | none => none
    else if c = '$' then
      let (p, rest) := parameter cs
      go [⟨p, false⟩] rest
    else go [⟨.literal [c], false⟩] cs

def redirectors : List String := [">>", ">&", "<&", "<", ">"]

def separators : List String := ["&&", "||", ";", "&", "|", "(", ")"]

/-- The first of some operators that a text starts with. -/
def operator? (operators : List String) (cs : List Char) : Option String :=
  operators.find? fun o => cs.take o.length = o.toList

/-- The tokens of a script, unless a quote is not closed. Each takes a character at least. -/
def tokens : Nat → List Char → Option (List Token)
  | 0, _ => none
  | _ + 1, [] => some []
  | fuel + 1, c :: cs =>
    let go := fun (t : Token) (rest : List Char) => (tokens fuel rest).map (t :: ·)
    let digits := (c :: cs).takeWhile Char.isDigit
    let afterDigits := (c :: cs).drop digits.length
    if c = ' ' || c = '\t' then tokens fuel cs
    else if c = '\n' then go .newline cs
    else if c = '\\' && cs.head? = some '\n' then tokens fuel (cs.drop 1)
    else if c = '#' then tokens fuel (cs.dropWhile (· ≠ '\n'))
    else
      match operator? redirectors afterDigits, operator? separators (c :: cs) with
      | some o, _ =>
        go (.redirection (String.ofList digits).toNat? o) (afterDigits.drop o.length)
      | none, some o => go (.operator o) ((c :: cs).drop o.length)
      | none, none =>
        match wordParts ((c :: cs).length + 1) (c :: cs) with
        | some (w, rest) => go (.word w) rest
        | none => none

end Mend.Shell
