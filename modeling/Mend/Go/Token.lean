import Mend.Go.Identifier

/-! Cutting Go source into tokens. White space vanishes, comments stay, and a line that ends in a
token after which a statement may end gives a newline token. -/
namespace Mend.Go

inductive TokenKind
  /-- An identifier, predeclared ones included. -/
  | name
  /-- A keyword, operator or punctuation mark, which is all in its spelling. -/
  | fixed
  | intNumber
  | floatNumber
  | imaginaryNumber
  | rune
  | quotedString
  | rawString
  | comment
  /-- The end of a line that ends a statement. -/
  | newline
  /-- The end of a text whose last line would have ended a statement. -/
  | endOfText
  /-- What no token starts with. -/
  | unknown
deriving DecidableEq, Repr

structure Token where
  kind : TokenKind
  start : Nat
  chars : List Char
deriving DecidableEq, Repr

def Token.stop (t : Token) : Nat := t.start + t.chars.length

def keywords : List (List Char) := [
  "break", "case", "chan", "const", "continue", "default", "defer", "else", "fallthrough", "for",
  "func", "go", "goto", "if", "import", "interface", "map", "package", "range", "return", "select",
  "struct", "switch", "type", "var"].map String.toList

/-- Operators and punctuation marks, longer ones before those they start with. -/
def operators : List (List Char) := [
  "&^=", "...", "<<=", ">>=",
  "&&", "&=", "&^", "||", "|=", "^=", "<-", "<=", "<<", "==", "!=", ":=", "++", "+=", "--", "-=",
  "*=", "/=", "%=", ">=", ">>",
  "+", "-", "*", "/", "%", "&", "|", "^", "<", ">", "=", "!", "(", ")", "[", "]", "\x7b", "\x7d",
  ",",  ";", ".", ":", "~"].map String.toList

/-- Whether a line break after the token ends a statement. -/
def Token.endsStatement (t : Token) : Bool :=
  match t.kind with
  | .name | .intNumber | .floatNumber | .imaginaryNumber | .rune | .quotedString
  | .rawString => true
  | .fixed =>
    (["break", "continue", "fallthrough", "return", "++", "--", ")", "]", "\x7d"].map
      String.toList).contains t.chars
  | _ => false

namespace Scan

def isBlank (c : Char) : Bool := c = ' ' || ('\t' ≤ c && c ≤ '\r')

/-- The length of a block comment from behind its opening mark on, if it is closed. -/
def blockComment? : List Char → Option Nat
  | [] => none
  | '*' :: '/' :: _ => some 2
  | _ :: rest => (blockComment? rest).map (· + 1)

/-- The length of a quoted text from behind its opening quote on, if it is closed on its line. -/
def quoted? (quote : Char) : List Char → Option Nat
  | [] => none
  | '\\' :: c :: rest => if c = '\n' then none else (quoted? quote rest).map (· + 2)
  | c :: rest =>
    if c = quote then some 1
    else if c = '\n' then none
    else (quoted? quote rest).map (· + 1)

/-- The length of a raw string from behind its opening quote on, if it is closed. -/
def raw? : List Char → Option Nat
  | [] => none
  | c :: rest => if c = '\x60' then some 1 else (raw? rest).map (· + 1)

def isDigit (c : Char) : Bool := c.isDigit || c = '_'

def isHexDigit (c : Char) : Bool :=
  c.isDigit || ('a' ≤ c && c ≤ 'f') || ('A' ≤ c && c ≤ 'F') || c = '_'

/-- The exponent that a text starts with, its mark being one of `marks`. -/
def exponent (marks : List Char) (cs : List Char) : List Char :=
  match cs with
  | mark :: sign :: rest =>
    if marks.contains mark then
      if sign = '+' || sign = '-' then mark :: sign :: rest.takeWhile isDigit
      else if isDigit sign then mark :: sign :: rest.takeWhile isDigit
      else []
    else []
  | _ => []

/-- The point and the digits behind it that a text starts with. -/
def fraction (digit : Char → Bool) (cs : List Char) : List Char :=
  match cs with
  | '.' :: more => '.' :: more.takeWhile digit
  | _ => []

/-- Digits, a fraction and an exponent, as far as they are there; and whether the number is more
than digits. -/
def mantissa (digit : Char → Bool) (marks : List Char) (cs : List Char) : List Char × Bool :=
  let whole := cs.takeWhile digit
  let rest := cs.drop whole.length
  let point := fraction digit rest
  let power := exponent marks (rest.drop point.length)
  (whole ++ point ++ power, !point.isEmpty || !power.isEmpty)

/-- The number that a text starts with, and whether it is a floating-point one. -/
def number (cs : List Char) : List Char × Bool :=
  match cs with
  | '0' :: x :: rest =>
    if x = 'x' || x = 'X' then
      let (digits, isFloat) := mantissa isHexDigit ['p', 'P'] rest
      ('0' :: x :: digits, isFloat)
    else if x = 'b' || x = 'B' || x = 'o' || x = 'O' then
      ('0' :: x :: rest.takeWhile isDigit, false)
    else mantissa isDigit ['e', 'E'] cs
  | _ => mantissa isDigit ['e', 'E'] cs

def startsNumber : List Char → Bool
  | c :: rest => c.isDigit || (c = '.' && rest.head?.any Char.isDigit)
  | [] => false

/-- The kind and the length of the number, name, keyword or operator that a text starts with. -/
def plainToken (cs : List Char) : TokenKind × Nat :=
  if startsNumber cs then
    let (digits, isFloat) := number cs
    if (cs.drop digits.length).head? = some 'i' then (.imaginaryNumber, digits.length + 1)
    else (if isFloat then .floatNumber else .intNumber, digits.length)
  else if cs.head?.any Identifier.isStart then
    let word := cs.takeWhile Identifier.isContinue
    (if keywords.contains word then .fixed else .name, word.length)
  else
    match operators.find? (·.isPrefixOf cs) with
    | some op => (.fixed, op.length)
    | none => (.unknown, 1)

/-- The kind and the length of the token that a text starts with; the text does not start blank. -/
def token (cs : List Char) : TokenKind × Nat :=
  match cs with
  | '/' :: '/' :: _ => (.comment, (cs.takeWhile (· ≠ '\n')).length)
  | '/' :: '*' :: rest =>
    match blockComment? rest with
    | some n => (.comment, n + 2)
    | none => (.unknown, 1)
  | '"' :: rest =>
    match quoted? '"' rest with
    | some n => (.quotedString, n + 1)
    | none => (.unknown, 1)
  | '\'' :: rest =>
    match quoted? '\'' rest with
    | some n => (.rune, n + 1)
    | none => (.unknown, 1)
  | '\x60' :: rest =>
    match raw? rest with
    | some n => (.rawString, n + 1)
    | none => (.unknown, 1)
  | _ => plainToken cs

/-- The tokens of a text that starts at offset `pos`. `ends` says whether a line break ends a
statement here. Every step takes at least one character, so the length of a text is fuel enough. -/
def tokens : Nat → List Char → Nat → Bool → List Token
  | 0, _, _, _ => []
  | _ + 1, [], pos, ends => if ends then [⟨.endOfText, pos, []⟩] else []
  | fuel + 1, c :: rest, pos, ends =>
    if c = '\n' && ends then ⟨.newline, pos, [c]⟩ :: tokens fuel rest (pos + 1) false
    else if isBlank c || (c = '\ufeff' && pos = 0) then tokens fuel rest (pos + 1) ends
    else
      let (kind, n) := token (c :: rest)
      let n := max 1 n
      let t : Token := ⟨kind, pos, (c :: rest).take n⟩
      t :: tokens fuel ((c :: rest).drop n) (pos + n)
        (if kind = .comment then ends else t.endsStatement)

end Scan

/-- The tokens of a source text. -/
def tokenize (cs : List Char) : List Token := Scan.tokens (cs.length + 1) cs 0 false

end Mend.Go
