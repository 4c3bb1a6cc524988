import Mend.Fix.Site

/-! Directives that silence a linter. A directive is a line of its own, indented like the line it
stands above. -/
namespace Mend

def nolintDirective (linter : String) : String := "//nolint:" ++ linter

/-- The linter to silence: the tool that reported, or its rule where no tool is named. -/
def Diagnostic.linter (d : Diagnostic) : String := if d.source.isEmpty then d.rule else d.source

/-- The text of a directive line. -/
def directiveLine (indent : List Char) (linter : String) : String :=
  String.ofList indent ++ nolintDirective linter ++ "\n"

/-- The edit that puts a directive above a line. -/
def Document.directiveAbove? (d : Document) (line : Nat) (linter : String) : Option Edit :=
  (d.lineStart? line).map fun start =>
    .insert start (directiveLine (d.lineIndent line) linter)

namespace Site

variable {ν : Type} (s : Site ν)

def suppressLineCandidate? : Option Candidate :=
  (s.document.directiveAbove? s.line s.diagnostic.linter).map fun e =>
    ⟨s!"Suppress '{s.diagnostic.linter}' for this line", .edits [e]⟩

/-- Silence the linter on the reported line. -/
def suppressLine : Resolution := .ofCandidate? s.suppressLineCandidate? none

/-- Silence a report about a number on its line. -/
def suppressNumber : Resolution :=
  match s.locate? .numberLiteral with
  | some literal => .ofCandidate? s.suppressLineCandidate? (s.tree.span literal)
  | none => .none

/-- A directive above the line on which a function starts. -/
def suppressFunctionCandidate? (function : ν) (linter : String) : Option Candidate :=
  let name :=
    match s.tree.name? function with
    | some n => String.ofList (s.tree.text n)
    | none => "_"
  let line := (s.document.position (s.tree.span function).start).1
  (s.document.directiveAbove? line linter).map fun e =>
    ⟨s!"Suppress '{linter}' for function '{name}'", .edits [e]⟩

/-- Silence a linter for the function around the report. -/
def suppressFunction (linter : String) : Resolution :=
  match s.locate? .functionDeclaration with
  | some function =>
    .ofCandidate? (s.suppressFunctionCandidate? function linter)
      ((s.tree.name? function).map s.tree.span)
  | none => .none

/-- Silence a report about a parameter for the function that declares it. -/
def suppressParameter : Resolution :=
  match s.locate? .parameterDeclaration with
  | some parameter =>
    .ofCandidate?
      ((s.tree.enclosing? .functionDeclaration parameter).bind fun function =>
        s.suppressFunctionCandidate? function s.diagnostic.linter)
      (s.tree.span parameter)
  | none => .none

end Site
end Mend
