import Mend.Fix.Basic
import Mend.Syntax.Locate

/-! Where a finding lies now: all that a fix may look at. -/
namespace Mend

/-- A finding together with the document it is about, that document's tree, and the document line
it has moved to. -/
structure Site (ν : Type) where
  tree : Tree ν
  document : Document
  diagnostic : Diagnostic
  line : Nat

namespace Site

variable {ν : Type} (s : Site ν)

def locate? (kind : NodeKind) : Option ν := Mend.locate? s.tree s.document s.diagnostic s.line kind

def anchor? : Option Nat := Mend.anchor? s.document s.diagnostic s.line

def shiftedRange? : Option LineRange := s.diagnostic.shiftedRange? s.line

def missingLineRange : FixError := .missingLineRange s.diagnostic.rule

end Site
end Mend
