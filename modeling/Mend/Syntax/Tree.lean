import Mend.Text.Span

/-! Syntax trees as the fixes see them. A tree is whatever can name the node at an offset and, of a
node, its kind, place, relatives and two named parts; where the nodes come from is not said. -/
namespace Mend

/-- The categories of nodes that fixes ask for. -/
inductive NodeKind
  | sourceFile
  | reference
  | definition
  | name
  | parameterDeclaration
  | functionDeclaration
  | packageClause
  | switchStatement
  | caseClause
  | defaultClause
  | stringLiteral
  | numberLiteral
  | comment
  | other
deriving DecidableEq, Repr

/-- A syntax tree whose nodes are named by values of `ν`. `ancestors` gives the parent first and
the root last, `name?` the declared name and `condition?` the value that a switch is about. -/
structure Tree (ν : Type) where
  leafAt? : Nat → Option ν
  kind : ν → NodeKind
  span : ν → Span
  text : ν → List Char
  ancestors : ν → List ν
  children : ν → List ν
  name? : ν → Option ν
  condition? : ν → Option ν

namespace Tree

variable {ν : Type}

def parent? (t : Tree ν) (n : ν) : Option ν := (t.ancestors n).head?

def lastChild? (t : Tree ν) (n : ν) : Option ν := (t.children n).getLast?

/-- The nearest node of a kind, the node itself counted. -/
def enclosing? (t : Tree ν) (kind : NodeKind) (n : ν) : Option ν :=
  (n :: t.ancestors n).find? fun m => t.kind m = kind

/-- The nearest node of a kind around the leaf at an offset. -/
def enclosingAt? (t : Tree ν) (kind : NodeKind) (offset : Nat) : Option ν :=
  (t.leafAt? offset).bind (t.enclosing? kind)

/-- The nodes that fixes can come to see: the leaves and what is found from them. -/
inductive Reachable (t : Tree ν) : ν → Prop
  | leaf {offset : Nat} {n : ν} : t.leafAt? offset = some n → Reachable t n
  | ancestor {n m : ν} : Reachable t n → m ∈ t.ancestors n → Reachable t m
  | child {n m : ν} : Reachable t n → m ∈ t.children n → Reachable t m
  | name {n m : ν} : Reachable t n → t.name? n = some m → Reachable t m
  | condition {n m : ν} : Reachable t n → t.condition? n = some m → Reachable t m

/-- Every node that can be seen addresses a part of a text of `length` characters. -/
def Within (t : Tree ν) (length : Nat) : Prop := ∀ n, t.Reachable n → (t.span n).Within length

theorem kind_of_enclosing? {t : Tree ν} {k : NodeKind} {n m : ν} (h : t.enclosing? k n = some m) :
    t.kind m = k := by
  simpa using List.find?_some h

theorem mem_of_enclosing? {t : Tree ν} {k : NodeKind} {n m : ν} (h : t.enclosing? k n = some m) :
    m ∈ n :: t.ancestors n :=
  List.mem_of_find?_eq_some h

end Tree
end Mend
