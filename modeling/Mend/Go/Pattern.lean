import Mend.Go.Node

/-! Grammars as data. A pattern reads a sequence of tokens and gives the nodes it reads; a grammar
gives the pattern behind each symbol. Of two patterns that both apply, the first is taken. -/
namespace Mend.Go

/-- The tokens that a pattern may ask for. -/
inductive Terminal
  | fixed (spelling : List Char)
  | name
  /-- An identifier with a given spelling. -/
  | word (spelling : List Char)
  | kind (kind : TokenKind)
deriving DecidableEq, Repr

def Terminal.accepts (t : Terminal) (token : Token) : Bool :=
  match t with
  | fixed spelling => token.kind = .fixed && token.chars = spelling
  | name => token.kind = .name
  | word spelling => token.kind = .name && token.chars = spelling
  | kind k => token.kind = k

/-- Patterns over the symbols `σ`. -/
inductive Pattern (σ : Type)
  /-- Nothing. -/
  | empty
  /-- A token, as a leaf of a kind of its own if one is given. -/
  | token (t : Terminal) (kind? : Option Kind)
  /-- A token without a node. -/
  | hidden (t : Terminal)
  | symbol (s : σ)
  | seq (p q : Pattern σ)
  | alt (p q : Pattern σ)
  /-- As many as there are. -/
  | many (p : Pattern σ)
  /-- What `p` reads as the children of one node. -/
  | node (kind : Kind) (p : Pattern σ)
  /-- What was read just before, in the role given, and what `p` reads as the children of one
  node. -/
  | around (role? : Option Role) (kind : Kind) (p : Pattern σ)
  /-- What was read just before, as it is. -/
  | keep
  /-- What `p` reads, taken up by `q`. -/
  | into (p q : Pattern σ)
  /-- What `p` reads, taken up by `q` as often as possible. -/
  | chain (p q : Pattern σ)
  | role (r : Role) (p : Pattern σ)
  /-- Nothing, where `p` could be read. -/
  | ahead (p : Pattern σ)
  /-- Nothing, where `p` could not be read. -/
  | absent (p : Pattern σ)
  /-- What `p` reads, where an opening brace belongs to a block. -/
  | header (p : Pattern σ)
  /-- What `p` reads, where an opening brace may belong to a literal. -/
  | inner (p : Pattern σ)
  /-- Nothing, where an opening brace may belong to a literal. -/
  | mayBrace

/-- Where reading has got to: the tokens left, and the end of the last token read. -/
structure Reading where
  rest : List Token
  last : Nat

namespace Reading

/-- Read a token, comments in front of it included. -/
def token? (r : Reading) (t : Terminal) : Option (List Node × Token × Reading) :=
  let comments := r.rest.takeWhile (·.kind = .comment)
  match r.rest.drop comments.length with
  | [] => none
  | token :: rest =>
    if t.accepts token then some (comments.map Node.ofToken, token, ⟨rest, token.stop⟩) else none

end Reading

/-- One node for a sequence of nodes, which ends at offset `stop`. Comments in front of the first
other node are not part of it. -/
def enclose (kind : Kind) (stop : Nat) (nodes : List Node) : List Node :=
  let comments := nodes.takeWhile Node.isComment
  match nodes.drop comments.length with
  | [] => comments
  | first :: rest => comments ++ [.mk none kind ⟨first.span.start, stop⟩ (first :: rest)]

def labelled (role? : Option Role) (nodes : List Node) : List Node :=
  match role? with
  | some role => nodes.map (Node.withRole role)
  | none => nodes

namespace Pattern

variable {σ : Type} (grammar : σ → Pattern σ)

/- `run` reads a pattern: `left` is what was read just before, and `braces` says whether an opening
brace may belong to a literal. `grow` lets a pattern take up `left` as often as possible. The first
argument bounds the depth of the descent. -/
mutual

def run : Nat → Pattern σ → Bool → List Node → Reading → Option (List Node × Reading)
  | 0, _, _, _, _ => none
  | fuel + 1, p, braces, left, r =>
    match p with
    | empty => some ([], r)
    | token t kind? =>
      match r.token? t with
      | some (comments, read, r') =>
        let leaf :=
          match kind? with
          | some kind => Node.leaf kind read.start read.chars.length
          | none => Node.ofToken read
        some (comments ++ [leaf], r')
      | none => none
    | hidden t =>
      match r.token? t with
      | some (comments, _, r') => some (comments, r')
      | none => none
    | symbol s => run fuel (grammar s) braces left r
    | seq p q =>
      match run fuel p braces [] r with
      | some (a, r') =>
        match run fuel q braces [] r' with
        | some (b, r'') => some (a ++ b, r'')
        | none => none
      | none => none
    | alt p q =>
      match run fuel p braces left r with
      | some result => some result
      | none => run fuel q braces left r
    | many p =>
      match run fuel p braces [] r with
      | some (a, r') =>
        match run fuel (many p) braces [] r' with
        | some (b, r'') => some (a ++ b, r'')
        | none => some (a, r')
      | none => some ([], r)
    | node kind p =>
      match run fuel p braces [] r with
      | some (a, r') => some (enclose kind r'.last a, r')
      | none => none
    | around role? kind p =>
      match run fuel p braces [] r with
      | some (a, r') => some (enclose kind r'.last (labelled role? left ++ a), r')
      | none => none
    | keep => some (left, r)
    | into p q =>
      match run fuel p braces left r with
      | some (a, r') => run fuel q braces a r'
      | none => none
    | chain p q =>
      match run fuel p braces left r with
      | some (a, r') => grow fuel q braces a r'
      | none => none
    | role part p =>
      match run fuel p braces left r with
      | some (a, r') => some (labelled part a, r')
      | none => none
    | ahead p => if (run fuel p braces [] r).isSome then some ([], r) else none
    | absent p => if (run fuel p braces [] r).isSome then none else some ([], r)
    | header p => run fuel p false left r
    | inner p => run fuel p true left r
    | mayBrace => if braces then some ([], r) else none

def grow : Nat → Pattern σ → Bool → List Node → Reading → Option (List Node × Reading)
  | 0, _, _, _, _ => none
  | fuel + 1, q, braces, left, r =>
    match run fuel q braces left r with
    | some (a, r') => grow fuel q braces a r'
    | none => some (left, r)

end

def seqs : List (Pattern σ) → Pattern σ
  | [] => empty
  | [p] => p
  | p :: ps => seq p (seqs ps)

def alts : List (Pattern σ) → Pattern σ
  | [] => absent empty
  | [p] => p
  | p :: ps => alt p (alts ps)

def opt (p : Pattern σ) : Pattern σ := alt p empty

/-- A keyword, operator or punctuation mark. -/
def fixed (spelling : String) : Pattern σ := token (.fixed spelling.toList) none

/-- An identifier, as a leaf of a given kind. -/
def name (kind : Kind) : Pattern σ := token .name (some kind)

/-- An identifier with a given spelling, as a leaf of a kind of its own. -/
def word (spelling : String) (kind : Kind) : Pattern σ :=
  token (.word spelling.toList) (some kind)

/-- One or more of `p` with `mark` between them. -/
def sepBy (p : Pattern σ) (mark : Pattern σ) : Pattern σ := seq p (many (seq mark p))

def commaSep (p : Pattern σ) : Pattern σ := sepBy p (fixed ",")

end Pattern
end Mend.Go
