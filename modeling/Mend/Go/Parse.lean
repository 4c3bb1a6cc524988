import Mend.Go.Grammar

/-! Parsing Go source files. A text that is not Go still has a tree: its tokens, side by side. -/
namespace Mend.Go

/-- A parsed source text. -/
structure File where
  chars : List Char
  root : Node
  hasErrors : Bool

/-- A bound on the depth of the descent: no symbol descends further than this without reading a
token. -/
def depthPerToken : Nat := 200

/-- The bound for a list of tokens. Comments are passed over in one step with what follows them and
do not count. -/
def depthBound (tokens : List Token) : Nat :=
  ((tokens.filter (·.kind ≠ .comment)).length + 1) * depthPerToken

/-- The nodes of a source file's tokens, if they follow the grammar. -/
def fileNodes? (tokens : List Token) : Option (List Node) :=
  match Pattern.run Grammar.rule (depthBound tokens) (.symbol .sourceFile) true [] ⟨tokens, 0⟩ with
  | some (nodes, r) =>
    if r.rest.all (·.kind = .comment) then some (nodes ++ r.rest.map Node.ofToken) else none
  | none => none

def parse (chars : List Char) : File :=
  let tokens := tokenize chars
  let root := fun nodes : List Node =>
    let start := (nodes.head?.map (·.span.start)).getD chars.length
    Node.mk none .sourceFile ⟨start, chars.length⟩ nodes
  match fileNodes? tokens with
  | some nodes => ⟨chars, root nodes, false⟩
  | none => ⟨chars, root ((tokens.filter (·.kind ≠ .newline)).map Node.ofToken), true⟩

end Mend.Go
