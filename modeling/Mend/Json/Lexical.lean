import Mend.Json.Error
import Mend.Text.Utf8

/-! Strings, numbers and words of JSON texts. A reader takes a text and gives a value and the rest
of the text; which error comes first is part of what it says. -/
namespace Mend.Json

def isSpace (c : Char) : Bool := c = ' ' || c = '\n' || c = '\t' || c = '\r'

def skipSpace (cs : List Char) : List Char := cs.dropWhile isSpace

/-- The rest of a word that has begun. -/
def word : List Char → List Char → Except Error (Unit × List Char)
  | [], cs => .ok ((), cs)
  | _ :: _, [] => .error .eofInValue
  | w :: ws, c :: cs => if c = w then word ws cs else .error .expectedIdent

def hexDigit? (c : Char) : Option Nat :=
  if c.isDigit then some (c.toNat - '0'.toNat)
  else if 'a' ≤ c && c ≤ 'f' then some (c.toNat - 'a'.toNat + 10)
  else if 'A' ≤ c && c ≤ 'F' then some (c.toNat - 'A'.toNat + 10)
  else none

/-- Four hexadecimal digits. A text that ends within four bytes ends too early; otherwise the digits
are wrong. -/
def hexEscape (cs : List Char) : Except Error (Nat × List Char) :=
  match (cs.take 4).mapM hexDigit? with
  | some [a, b, c, d] => .ok (((a * 16 + b) * 16 + c) * 16 + d, cs.drop 4)
  | _ => if Text.byteLength (cs.take 4) < 4 then .error .eofInString
    else .error .invalidEscape

def simpleEscape? (c : Char) : Option Char :=
  match c with
  | '"' => some '"'
  | '\\' => some '\\'
  | '/' => some '/'
  | 'b' => some '\x08'
  | 'f' => some '\x0c'
  | 'n' => some '\n'
  | 'r' => some '\r'
  | 't' => some '\t'
  | _ => none

/-- The character of a hexadecimal escape: a unit of its own, or two that form a surrogate pair. -/
def unicodeEscape (cs : List Char) : Except Error (Char × List Char) := do
  let (n, cs) ← hexEscape cs
  if 0xdc00 ≤ n && n ≤ 0xdfff then .error .loneSurrogate
  else if n < 0xd800 || 0xdbff < n then .ok (Char.ofNat n, cs)
  else
    match cs with
    | [] => .error .eofInString
    | '\\' :: 'u' :: rest =>
      let (low, rest) ← hexEscape rest
      if low < 0xdc00 || 0xdfff < low then .error .loneSurrogate
      else .ok (Char.ofNat ((n - 0xd800) * 0x400 + (low - 0xdc00) + 0x10000), rest)
    | ['\\'] => .error .eofInString
    | _ => .error .unfinishedSurrogate

/-- The characters of a string from behind its opening quote on. -/
def stringBody : Nat → List Char → Except Error (List Char × List Char)
  | 0, _ | _ + 1, [] => .error .eofInString
  | fuel + 1, c :: cs =>
    if c = '"' then .ok ([], cs)
    else if c = '\\' then
      match cs with
      | [] => .error .eofInString
      | 'u' :: rest => do
        let (c, rest) ← unicodeEscape rest
        let (s, rest) ← stringBody fuel rest
        .ok (c :: s, rest)
      | e :: rest =>
        match simpleEscape? e with
        | some c => do
          let (s, rest) ← stringBody fuel rest
          .ok (c :: s, rest)
        | none => .error .invalidEscape
    else if c < ' ' then .error .controlCharacter
    else do
      let (s, rest) ← stringBody fuel cs
      .ok (c :: s, rest)

def string (cs : List Char) : Except Error (String × List Char) := do
  let (s, rest) ← stringBody (cs.length + 1) cs
  .ok (String.ofList s, rest)

/-- Read over a string whose characters do not matter; its escapes need not form characters. -/
def skipString : Nat → List Char → Except Error (Unit × List Char)
  | 0, _ | _ + 1, [] => .error .eofInString
  | fuel + 1, c :: cs =>
    if c = '"' then .ok ((), cs)
    else if c = '\\' then
      match cs with
      | [] => .error .eofInString
      | 'u' :: rest => do
        let (_, rest) ← hexEscape rest
        skipString fuel rest
      | e :: rest =>
        if (simpleEscape? e).isSome then skipString fuel rest else .error .invalidEscape
    else if c < ' ' then .error .controlCharacter
    else skipString fuel cs

inductive Number
  | natural (n : Nat)
  | negative (n : Int)
  | float (x : Float)

def Number.found : Number → Found
  | natural n => .integer n
  | negative n => .integer n
  | float x => .float x

/-- Integers up to this one are exact. -/
def maxNatural : Nat := Nat.pow 2 64 - 1

def digit (c : Char) : Nat := c.toNat - '0'.toNat

/-- Digits taken up as long as the number stays exact. -/
def significand : Nat → List Char → Nat × List Char
  | n, [] => (n, [])
  | n, c :: cs =>
    if c.isDigit && n * 10 + digit c ≤ maxNatural then significand (n * 10 + digit c) cs
    else (n, c :: cs)

/-- The double `significand * 10 ^ exponent`, by one multiplication or division where the power of
ten is a double, and in steps of `1e308` below that. -/
def scale : Nat → Float → Int → Except Error Float
  | 0, _, _ => .error .numberOutOfRange
  | fuel + 1, x, e =>
    if e.natAbs ≤ 308 then
      let power := Float.ofScientific 1 false e.natAbs
      if 0 ≤ e then
        let y := x * power
        if y.isInf then .error .numberOutOfRange else .ok y
      else .ok (x / power)
    else if x == 0 then .ok x
    else if 0 ≤ e then .error .numberOutOfRange
    else scale fuel (x / 1e308) (e + 308)

def floatOf (isNegative : Bool) (n : Nat) (e : Int) (rest : List Char) :
    Except Error (Number × List Char) := do
  let x ← scale (e.natAbs / 308 + 2) n.toUInt64.toFloat e
  .ok (.float (if isNegative then -x else x), rest)

/-- The largest exponent that is read as a number. -/
def maxExponent : Nat := Nat.pow 2 31 - 1

/-- The part of a number from behind its exponent mark on. -/
def exponentPart (isNegative : Bool) (n : Nat) (e : Int) (cs : List Char) :
    Except Error (Number × List Char) :=
  let (isDown, cs) :=
    match cs with
    | '+' :: rest => (false, rest)
    | '-' :: rest => (true, rest)
    | _ => (false, cs)
  match cs with
  | [] => .error .eofInValue
  | c :: _ =>
    if c.isDigit then
      let digits := cs.takeWhile Char.isDigit
      let rest := cs.drop digits.length
      let power := digits.foldl (fun p d => p * 10 + digit d) 0
      if power ≤ maxExponent then
        let e := if isDown then e - power else e + power
        floatOf isNegative n (max (-maxExponent - 1) (min maxExponent e)) rest
      else if n ≠ 0 && !isDown then .error .numberOutOfRange
      else .ok (.float (if isNegative then -0.0 else 0.0), rest)
    else .error .invalidNumber

def endOfNumber (isNegative : Bool) (n : Nat) (e : Int) (cs : List Char) :
    Except Error (Number × List Char) :=
  match cs with
  | c :: rest =>
    if c = 'e' || c = 'E' then exponentPart isNegative n e rest else floatOf isNegative n e cs
  | [] => floatOf isNegative n e cs

/-- The part of a number from behind its point on. Digits that make it inexact are dropped. -/
def fractionPart (isNegative : Bool) (n : Nat) (e : Int) (cs : List Char) :
    Except Error (Number × List Char) :=
  let (m, rest) := significand n cs
  let taken := cs.length - rest.length
  match rest with
  | c :: _ =>
    if c.isDigit then
      endOfNumber isNegative m (e - taken) (rest.dropWhile Char.isDigit)
    else if taken = 0 then .error .invalidNumber
    else endOfNumber isNegative m (e - taken) rest
  | [] => if taken = 0 then .error .eofInValue else endOfNumber isNegative m (e - taken) rest

/-- What follows the digits before the point. Negative zero and what is below the signed 64-bit
words are floating-point numbers. -/
def numberTail (isNegative : Bool) (n : Nat) (cs : List Char) : Except Error (Number × List Char) :=
  let whole : Number :=
    if isNegative then
      if 0 < n && n ≤ Nat.pow 2 63 then .negative (-n) else .float (-n.toUInt64.toFloat)
    else .natural n
  match cs with
  | '.' :: rest => fractionPart isNegative n 0 rest
  | c :: rest => if c = 'e' || c = 'E' then exponentPart isNegative n 0 rest else .ok (whole, cs)
  | [] => .ok (whole, [])

/-- A number from behind its sign on. -/
def number (isNegative : Bool) (cs : List Char) : Except Error (Number × List Char) :=
  match cs with
  | [] => .error .eofInValue
  | '0' :: rest =>
    if rest.head?.any Char.isDigit then .error .invalidNumber else numberTail isNegative 0 rest
  | c :: _ =>
    if c.isDigit then
      let (n, rest) := significand 0 cs
      if rest.head?.any Char.isDigit then
        let digits := rest.takeWhile Char.isDigit
        match rest.drop digits.length with
        | '.' :: more => fractionPart isNegative n digits.length more
        | more => endOfNumber isNegative n digits.length more
      else numberTail isNegative n rest
    else .error .invalidNumber

/-- Read over an exponent, from behind its mark on. -/
def skipExponent (cs : List Char) : Except Error (Unit × List Char) :=
  let cs :=
    match cs with
    | '+' :: rest => rest
    | '-' :: rest => rest
    | _ => cs
  if cs.head?.any Char.isDigit then .ok ((), cs.dropWhile Char.isDigit)
  else .error .invalidNumber

def skipEndOfNumber (cs : List Char) : Except Error (Unit × List Char) :=
  match cs with
  | c :: rest => if c = 'e' || c = 'E' then skipExponent rest else .ok ((), cs)
  | [] => .ok ((), cs)

def skipFraction (cs : List Char) : Except Error (Unit × List Char) :=
  match cs with
  | '.' :: rest =>
    if rest.head?.any Char.isDigit then skipEndOfNumber (rest.dropWhile Char.isDigit)
    else .error .invalidNumber
  | _ => skipEndOfNumber cs

/-- Read over a number whose value does not matter, from behind its sign on. -/
def skipNumber (cs : List Char) : Except Error (Unit × List Char) :=
  match cs with
  | '0' :: rest =>
    if rest.head?.any Char.isDigit then .error .invalidNumber else skipFraction rest
  | c :: _ => if c.isDigit then skipFraction (cs.dropWhile Char.isDigit) else .error .invalidNumber
  | [] => .error .invalidNumber

end Mend.Json
