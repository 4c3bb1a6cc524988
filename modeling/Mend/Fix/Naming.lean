import Mend.Fix.Site
import Mend.Fix.Wording

/-! Fixes that replace a name, a type or a literal. -/
namespace Mend.Site

variable {ν : Type} (s : Site ν)

/-- The last word of the message. -/
def namedInMessage : List Char := Wording.lastWord s.diagnostic.message.toList

/-- Assign to nothing instead of to a variable that is never read again. A name that is declared
here stays: later uses would lose their meaning. -/
def discardTarget : Resolution :=
  match s.locate? .reference with
  | some target =>
    if s.tree.text target = s.namedInMessage then
      let span := s.tree.span target
      .single ⟨s!"Rename '{String.ofList s.namedInMessage}' to _", .edits [⟨span, "_"⟩]⟩ span
    else .none
  | none => .none

/-- Give a parameter the type that the message suggests; the type is the last part of the
declaration. -/
def narrowParameterType : Resolution :=
  match (s.locate? .parameterDeclaration).bind s.tree.lastChild? with
  | some type =>
    let suggested := String.ofList s.namedInMessage
    let span := s.tree.span type
    .single ⟨s!"Replace parameter type with '{suggested}'", .edits [⟨span, suggested⟩]⟩ span
  | none => .none

/-- Extract a repeated literal. -/
def extractConstant : Resolution :=
  match s.locate? .stringLiteral with
  | some literal =>
    let text := String.ofList (s.tree.text literal)
    let span := s.tree.span literal
    .single ⟨s!"Introduce constant for {text}", .introduceConstant span text⟩ span
  | none => .none

/-- Move a test into the package of its own that tests from outside. -/
def externalTestPackage : Resolution :=
  match (s.locate? .packageClause).bind s.tree.name? with
  | some name =>
    let newName := String.ofList (s.tree.text name) ++ "_test"
    let span := s.tree.span name
    .single ⟨s!"Rename package to '{newName}'", .edits [⟨span, newName⟩]⟩ span
  | none => .none

/-- Name a function that formats like one: with a final `f`. -/
def printfName : Resolution :=
  match (s.locate? .functionDeclaration).bind s.tree.name? with
  | some name =>
    let newName := String.ofList (s.tree.text name) ++ "f"
    let span := s.tree.span name
    .single ⟨s!"Rename to '{newName}'", .rename span newName⟩ span
  | none => .none

end Mend.Site
