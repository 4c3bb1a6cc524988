import Mend.Diagnostic
import Mend.Syntax.Tree
import Mend.Text.Document

/-! From a reported position to the node it is about. -/
namespace Mend

/-- The offset a finding addresses once it is about document line `line`: its column, cut at the
end of the line, or the first character after the indentation if no column is known. -/
def anchor? (d : Document) (diag : Diagnostic) (line : Nat) : Option Nat :=
  match d.lineSpan? line with
  | none => none
  | some s =>
    let offset :=
      match diag.column with
      | 0 => s.start + (d.lineIndent line).length
      | column + 1 => d.offset line column
    some (min offset s.stop)

/-- The nearest node of a kind around the anchor, or around the character before it where nothing
of that kind holds the anchor: a column just past a token is about that token. -/
def locate? {ν : Type} (t : Tree ν) (d : Document) (diag : Diagnostic) (line : Nat)
    (kind : NodeKind) : Option ν :=
  match anchor? d diag line, d.lineStart? line with
  | some offset, some start =>
    (t.enclosingAt? kind offset).or
      (if start < offset then t.enclosingAt? kind (offset - 1) else none)
  | _, _ => none

end Mend
