import Mend.Diagnostic
import Mend.Json.Typed

/-! The linter's JSON reports, read as findings. -/
namespace Mend.Report

open Json

/-- Lines and columns are numbers of this type. -/
def count : Reader Nat := natural "usize"

structure RangeDraft where
  first : Option Nat := none
  last : Option Nat := none

def rangeShape : Shape RangeDraft where
  name := "struct RawLineRange"
  slots := [
    .ofOption "From" true count (·.first) fun d n => { d with first := some n },
    .ofOption "To" true count (·.last) fun d n => { d with last := some n }]
  empty := {}

def lineRange : Reader LineRange := fun cs => do
  let (d, rest) ← rangeShape.read cs
  .ok (⟨d.first.getD 0, d.last.getD 0⟩, rest)

structure PositionDraft where
  file : Option String := none
  line : Option Nat := none
  column : Option Nat := none

def positionShape : Shape PositionDraft where
  name := "struct RawPosition"
  slots := [
    .ofOption "Filename" true text (·.file) fun d s => { d with file := some s },
    .ofOption "Line" false count (·.line) fun d n => { d with line := some n },
    .ofOption "Column" false count (·.column) fun d n => { d with column := some n }]
  empty := {}

structure IssueDraft where
  linter : Option String := none
  text : Option String := none
  position : Option PositionDraft := none
  lineRange : Option (Option LineRange) := none

def issueShape : Shape IssueDraft where
  name := "struct RawIssue"
  slots := [
    .ofOption "FromLinter" true text (·.linter) fun d s => { d with linter := some s },
    .ofOption "Text" true text (·.text) fun d s => { d with text := some s },
    .ofOption "Pos" true positionShape.read (·.position) fun d p => { d with position := some p },
    .ofOption "LineRange" false (optional lineRange) (·.lineRange)
      fun d r => { d with lineRange := some r }]
  empty := {}

/-- An issue as a finding. A line or column that is not reported is zero. -/
def IssueDraft.finding (d : IssueDraft) : Diagnostic where
  rule := d.linter.getD ""
  message := d.text.getD ""
  file := (d.position.bind (·.file)).getD ""
  line := (d.position.bind (·.line)).getD 0
  column := (d.position.bind (·.column)).getD 0
  lineRange? := d.lineRange.join
  source := d.linter.getD ""

def issue : Reader Diagnostic := fun cs => do
  let (d, rest) ← issueShape.read cs
  .ok (d.finding, rest)

structure Draft where
  issues : Option (Option (List Diagnostic)) := none

def shape : Shape Draft where
  name := "struct RawReport"
  slots := [
    .ofOption "Issues" false (optional (list issue)) (·.issues)
      fun d is => { d with issues := some is }]
  empty := {}

/-- The findings of a report, in its order. -/
def parse (report : String) : Except Json.Error (List Diagnostic) :=
  document (fun cs => (shape.read cs).map fun (d, rest) => (d.issues.join.getD [], rest))
    report.toList

end Mend.Report
