import Mend.Syntax.Tree

/-! Syntax trees given as tables: the node's number is its place in the table, and each entry names
its parent. -/
namespace Mend

structure OutlineEntry where
  kind : NodeKind
  span : Span
  text : List Char
  parent? : Option Nat
  name? : Option Nat
  condition? : Option Nat
deriving Repr

abbrev Outline := Array OutlineEntry

namespace Outline

variable (o : Outline)

/-- An entry's number as a number of this table. -/
def node? (i : Nat) : Option (Fin o.size) := if h : i < o.size then some ⟨i, h⟩ else none

/-- The parents of a node, at most `fuel` of them. -/
def chain : Nat → Fin o.size → List (Fin o.size)
  | 0, _ => []
  | fuel + 1, n =>
    match o[n].parent?.bind o.node? with
    | some p => p :: chain fuel p
    | none => []

/-- The narrowest entry that holds an offset, the last one of those equally narrow. -/
def narrowest? (offset : Nat) : Option (Fin o.size) :=
  (List.finRange o.size).foldl (fun best n =>
    let s := o[n].span
    if s.Contains offset then
      match best with
      | some b => if s.stop - s.start ≤ o[b].span.stop - o[b].span.start then some n else best
      | none => some n
    else best) none

/-- The tree of a table over a text of `length` characters. Where no entry holds an offset inside
the text, the first entry answers. A chain of parents is never longer than the table. -/
def tree (length : Nat) : Tree (Fin o.size) where
  leafAt? offset := if offset ≤ length then (o.narrowest? offset).or (o.node? 0) else none
  kind n := o[n].kind
  span n := o[n].span
  text n := o[n].text
  ancestors n := o.chain o.size n
  children n := (List.finRange o.size).filter fun m => o[m].parent? = some n.val
  name? n := o[n].name?.bind o.node?
  condition? n := o[n].condition?.bind o.node?

end Outline
end Mend
