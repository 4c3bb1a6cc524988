import Mend.Fix.Site
import Mend.Fix.Wording

/-! Adding the cases that a switch does not handle. -/
namespace Mend

/-- The edit that adds a clause in front of the closing brace at offset `brace`, as a line of its
own. A brace that is not the first thing on its line is moved to a line of its own. -/
def Document.appendClause? (d : Document) (brace : Nat) (clause : String) : Option Edit :=
  let (line, column) := d.position brace
  if column = (d.lineIndent line).length then (d.lineStart? line).map (.insert · clause)
  else some (.insert brace ("\n" ++ clause))

namespace Site

variable {ν : Type} (s : Site ν)

/-- The clauses of a switch. -/
def clauses (switch : ν) : List ν :=
  (s.tree.children switch).filter fun c =>
    s.tree.kind c = .caseClause || s.tree.kind c = .defaultClause

/-- The edit that adds `cases` to a switch whose last clause is `last?`, whose indentation the new
clause takes; in a switch without clauses it takes that of the closing brace. -/
def appendCases? (switch : ν) (last? : Option ν) (cases : List Char) : Option Edit :=
  let d := s.document
  match (s.tree.span switch).stop with
  | 0 => none
  | brace + 1 =>
    if d.char? brace = some '}' then
      let above :=
        match last? with
        | some clause => (s.tree.span clause).start
        | none => brace
      let indent := String.ofList (d.lineIndent (d.position above).1)
      d.appendClause? brace (indent ++ "case " ++ String.ofList cases ++ ":\n")
    else none

/-- Add the missing cases to a switch, unless it ends in a default clause, which covers every
value. -/
def addMissingCases : Resolution :=
  match s.locate? .switchStatement with
  | none => .none
  | some switch =>
    let highlight? := (s.tree.condition? switch).map s.tree.span
    let last? := (s.clauses switch).getLast?
    if last?.any fun c => s.tree.kind c = .defaultClause then .highlightOnly highlight?
    else
      let edit? :=
        (Wording.missingCases? s.diagnostic.message.toList).bind (s.appendCases? switch last?)
      .ofCandidate? (edit?.map fun e => ⟨"Add missing cases", .edits [e]⟩) highlight?

end Site
end Mend
