import Mend.Go.Kind
import Mend.Go.Token
import Mend.Text.Span

/-! Go syntax trees as data: nodes that hold their children, tokens and comments among them. -/
namespace Mend.Go

/-- What a node is to its parent, as far as anything asks. -/
inductive Role
  | name
  | value
  | left
deriving DecidableEq, Repr

inductive Node where
  | mk (role? : Option Role) (kind : Kind) (span : Span) (children : List Node)

namespace Node

def role? : Node → Option Role
  | mk role? _ _ _ => role?

def kind : Node → Kind
  | mk _ kind _ _ => kind

def span : Node → Span
  | mk _ _ span _ => span

def children : Node → List Node
  | mk _ _ _ children => children

def leaf (kind : Kind) (start length : Nat) : Node := mk none kind ⟨start, start + length⟩ []

def isComment (n : Node) : Bool := n.kind = .comment

/-- Named nodes are those that stand for more than their spelling. -/
def isNamed (n : Node) : Bool :=
  match n.kind with
  | .fixed _ => false
  | _ => true

/-- Give a node a role, unless it has one or is a comment, which has no part to play. -/
def withRole (role : Role) : Node → Node
  | mk none kind span children =>
    if kind = .comment then mk none kind span children else mk (some role) kind span children
  | n => n

/-- The first child in a role. -/
def inRole? (n : Node) (role : Role) : Option Node := n.children.find? (·.role? = some role)

/-- Whether the leaf at an offset is to be looked for in a node. An empty node holds the offset at
which it stands. -/
def holds (n : Node) (offset : Nat) : Bool :=
  n.span.start ≤ offset &&
    (offset < n.span.stop || (n.span.start = n.span.stop && offset = n.span.stop))

/-- The digits of an escape sequence: as many as the first character behind its backslash asks
for. -/
def escapeDigits (c : Char) (rest : List Char) : List Char :=
  let isHex := fun d : Char => d.isDigit || ('a' ≤ d && d ≤ 'f') || ('A' ≤ d && d ≤ 'F')
  if c = 'x' then rest.takeWhile isHex
  else if c = 'u' then (rest.take 4).takeWhile isHex
  else if c = 'U' then (rest.take 8).takeWhile isHex
  else if c.isDigit then (rest.take 2).takeWhile Char.isDigit
  else []

/-- The pieces of a quoted string between its quotes: escape sequences and the text between them. -/
def stringPieces : Nat → List Char → Nat → List Node
  | 0, _, _ => []
  | _ + 1, [], _ => []
  | fuel + 1, '\\' :: c :: rest, pos =>
    let length := (escapeDigits c rest).length + 2
    leaf .escapeSequence pos length ::
      stringPieces fuel (('\\' :: c :: rest).drop length) (pos + length)
  | fuel + 1, cs, pos =>
    let plain := max 1 (cs.takeWhile (· ≠ '\\')).length
    leaf .interpretedStringLiteralContent pos plain ::
      stringPieces fuel (cs.drop plain) (pos + plain)

/-- The node of a string token: its quotes and what stands between them. -/
def ofString (t : Token) : Node :=
  let inner := (t.chars.drop 1).take (t.chars.length - 2)
  let quote := fun start => leaf (.fixed (t.chars.take 1)) start 1
  let (kind, pieces) :=
    if t.kind = .rawString then
      (Kind.rawStringLiteral, [leaf .rawStringLiteralContent (t.start + 1) inner.length])
    else (.interpretedStringLiteral, stringPieces inner.length inner (t.start + 1))
  mk none kind ⟨t.start, t.stop⟩ (quote t.start :: pieces ++ [quote (t.stop - 1)])

/-- The node of a token, by itself. -/
def ofToken (t : Token) : Node :=
  let plain := fun kind => leaf kind t.start t.chars.length
  match t.kind with
  | .name => plain .identifier
  | .intNumber => plain .intLiteral
  | .floatNumber => plain .floatLiteral
  | .imaginaryNumber => plain .imaginaryLiteral
  | .rune => plain .runeLiteral
  | .quotedString | .rawString => ofString t
  | .comment => plain .comment
  | .endOfText => plain (.fixed ['\x00'])
  | .fixed | .newline => plain (.fixed t.chars)
  | .unknown => plain .error

end Node
end Mend.Go
