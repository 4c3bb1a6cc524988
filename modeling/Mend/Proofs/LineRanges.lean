import Mathlib.Algebra.Group.Nat.Defs
import Mend.Linter.Report
import Mend.Proofs.Json.Bounds

/-! The lines of a finding's range. Reports count lines from one and documents from zero, so that in
an unedited document a range moves up by one line; but the range of a finding without a line of its
own stays where it is. -/
namespace Mend

open Json

/-- The lines that the finding tells of have numbers of 64 bits. -/
def Diagnostic.Countable (d : Diagnostic) : Prop :=
  d.line ≤ maxLine ∧ ∀ r ∈ d.lineRange?, r.first ≤ maxLine ∧ r.last ≤ maxLine

namespace Report

lemma only_count (cs : List Char) : Only (· ≤ maxLine) (count cs) := only_natural "usize" cs

section

variable {δ α : Type} {I : δ → Prop} {P : α → Prop} {name : String} {required : Bool}
  {value : Reader α} {get : δ → Option α} {set : δ → α → δ} {d : δ}

lemma only_fill (hvalue : ∀ cs, Only P (value cs)) (hset : ∀ a, P a → I (set d a))
    (cs : List Char) : Only I ((Slot.ofOption name required value get set).fill d cs) :=
  (hvalue cs).map fun a _ ha => hset a ha

/-- A field that nothing is known of keeps what does not depend on it. -/
lemma only_fill_of_forall (hset : ∀ a, I (set d a)) (cs : List Char) :
    Only I ((Slot.ofOption name required value get set).fill d cs) :=
  only_fill (P := fun _ => True) (fun _ _ _ _ => trivial) (fun a _ => hset a) cs

end

lemma getD_le {o : Option Nat} {m : Nat} (h : ∀ n ∈ o, n ≤ m) : o.getD 0 ≤ m := by
  cases o with
  | none => exact Nat.zero_le m
  | some n => exact h n rfl

lemma only_lineRange (cs : List Char) :
    Only (fun r => r.first ≤ maxLine ∧ r.last ≤ maxLine) (lineRange cs) := by
  have hdraft : Only (fun d => (∀ n ∈ d.first, n ≤ maxLine) ∧ ∀ n ∈ d.last, n ≤ maxLine)
      (rangeShape.read cs) := by
    refine only_read (by simp [rangeShape]) ?_ cs
    simp only [rangeShape, List.forall_mem_cons]
    exact ⟨fun d cs hd => only_fill only_count (fun n hn => ⟨by simpa using hn, hd.2⟩) cs,
      fun d cs hd => only_fill only_count (fun n hn => ⟨hd.1, by simpa using hn⟩) cs, by simp⟩
  exact hdraft.bind fun d rest hd => only_ok ⟨getD_le hd.1, getD_le hd.2⟩ rest

lemma only_position (cs : List Char) :
    Only (fun d => ∀ n ∈ d.line, n ≤ maxLine) (positionShape.read cs) := by
  refine only_read (by simp [positionShape]) ?_ cs
  simp only [positionShape, List.forall_mem_cons]
  exact ⟨fun d cs hd => only_fill_of_forall (fun _ => hd) cs,
    fun d cs hd => only_fill only_count (fun n hn => by simpa using hn) cs,
    fun d cs hd => only_fill_of_forall (fun _ => hd) cs, by simp⟩

lemma only_issue (cs : List Char) : Only Diagnostic.Countable (issue cs) := by
  have hdraft : Only (fun d => (∀ p ∈ d.position, ∀ n ∈ p.line, n ≤ maxLine) ∧
      ∀ o ∈ d.lineRange, ∀ r ∈ o, r.first ≤ maxLine ∧ r.last ≤ maxLine) (issueShape.read cs) := by
    refine only_read (by simp [issueShape]) ?_ cs
    simp only [issueShape, List.forall_mem_cons]
    exact ⟨fun d cs hd => only_fill_of_forall (fun _ => hd) cs,
      fun d cs hd => only_fill_of_forall (fun _ => hd) cs,
      fun d cs hd => only_fill only_position (fun p hp => ⟨by simpa using hp, hd.2⟩) cs,
      fun d cs hd => only_fill (only_optional only_lineRange)
        (fun o ho => ⟨hd.1, by simpa using ho⟩) cs, by simp⟩
  refine hdraft.bind fun d rest hd => only_ok ⟨getD_le fun n hn => ?_, fun r hr => ?_⟩ rest
  · obtain ⟨p, hp, hn⟩ := Option.bind_eq_some_iff.1 hn
    exact hd.1 p hp n hn
  · exact hd.2 (some r) (Option.join_eq_some_iff.1 hr) r rfl

/-- The findings of a report have numbers of 64 bits. -/
theorem countable_of_parse {report : String} {ds : List Diagnostic} (h : parse report = .ok ds)
    {d : Diagnostic} (hd : d ∈ ds) : d.Countable := by
  have hdraft (cs : List Char) : Only (fun x => ∀ o ∈ x.issues, ∀ ds ∈ o, ∀ d ∈ ds, d.Countable)
      (shape.read cs) := by
    refine only_read (by simp [shape]) ?_ cs
    simp only [shape, List.forall_mem_singleton]
    exact fun d cs _ =>
      only_fill (only_optional (only_list only_issue)) (fun o ho => by simpa using ho) cs
  refine of_document (P := fun ds => ∀ d ∈ ds, d.Countable) (fun cs => ?_) h d hd
  refine (hdraft cs).map fun x rest hx => ?_
  cases hissues : x.issues.join with
  | none => simp [hissues]
  | some ds => simpa [hissues] using hx (some ds) (Option.join_eq_some_iff.1 hissues) ds rfl

end Report

/-- A line that is moved by at most one stays a number that there is. -/
lemma shiftLine_zero {l : Nat} (h : l ≤ maxLine) : shiftLine l 0 = l := by
  rw [shiftLine, Int.add_zero, Int.toNat_natCast, Nat.min_eq_left h]

lemma shiftLine_neg_one {l : Nat} (h : l ≤ maxLine) : shiftLine l (-1) = l - 1 := by
  have hpred : ((l : Int) + -1).toNat = l - 1 := by omega
  rw [shiftLine, hpred, Nat.min_eq_left (by omega)]

namespace Diagnostic

variable {d : Diagnostic} {r : LineRange}

/-- The shift to a line, as a difference of two signed words, is out of the range of such words. -/
def ShiftOverflows (d : Diagnostic) (line : Nat) : Prop :=
  (BitVec.ofNat 64 line).ssubOverflow (BitVec.ofNat 64 d.line) = true

instance (d : Diagnostic) (line : Nat) : Decidable (d.ShiftOverflows line) :=
  inferInstanceAs (Decidable (_ = true))

/-- The shift is the difference of the two words. -/
theorem lineShift_eq_toInt_sub (d : Diagnostic) (line : Nat) :
    d.lineShift line = (BitVec.ofNat 64 line - BitVec.ofNat 64 d.line).toInt := by
  rw [BitVec.toInt_sub, BitVec.toInt_ofNat', BitVec.toInt_ofNat', Int.bmod_sub_bmod,
    Int.sub_bmod_bmod]
  rfl

theorem lineShift_eq_sub_toInt {line : Nat} (h : ¬ d.ShiftOverflows line) :
    d.lineShift line = (BitVec.ofNat 64 line).toInt - (BitVec.ofNat 64 d.line).toInt := by
  rw [lineShift_eq_toInt_sub, BitVec.toInt_sub_of_not_ssubOverflow h]

/-- A finding without a line is about the first line, and does not move. -/
lemma lineShift_documentLine (d : Diagnostic) :
    d.lineShift d.documentLine = if d.line = 0 then 0 else -1 := by
  have hdiff : ((d.documentLine : Nat) : Int) - d.line = if d.line = 0 then 0 else -1 := by
    rw [documentLine]
    split <;> omega
  rw [lineShift, hdiff]
  split <;> decide

/-- Of all lines in a row only the largest signed word is followed by the smallest one. -/
lemma shiftOverflows_documentLine_iff (h : d.line ≤ maxLine) :
    d.ShiftOverflows d.documentLine ↔ d.line = 2 ^ 63 := by
  have hline : d.line < 2 ^ 64 := Nat.lt_of_le_pred (by decide) h
  have hword {n : Nat} (hn : n < 2 ^ 64) :
      (BitVec.ofNat 64 n).toInt = if n < 2 ^ 63 then (n : Int) else n - 2 ^ 64 := by
    rw [BitVec.toInt_eq_toNat_cond, BitVec.toNat_ofNat, Nat.mod_eq_of_lt hn]
    split <;> split <;> omega
  rw [ShiftOverflows, BitVec.ssubOverflow, documentLine, hword hline, hword (by omega),
    Bool.or_eq_true, decide_eq_true_eq, decide_eq_true_eq]
  split <;> split <;> omega

theorem shiftedRange?_documentLine (h : d.Countable) (hr : d.lineRange? = some r) :
    d.shiftedRange? d.documentLine =
      some (if d.line = 0 then r else ⟨r.first - 1, r.last - 1⟩) := by
  obtain ⟨hfirst, hlast⟩ := h.2 r hr
  rw [shiftedRange?, hr, Option.map_some, lineShift_documentLine, LineRange.shifted]
  split
  · rw [shiftLine_zero hfirst, shiftLine_zero hlast]
  · rw [shiftLine_neg_one hfirst, shiftLine_neg_one hlast]

/-- In an unedited document the lines of a range move up by one, to where the document has them,
just if the finding has a line of its own. The shift is out of range for one line only, the smallest
number that is negative as a signed word. -/
theorem shiftedRange?_reported_iff {report : String} {ds : List Diagnostic}
    (h : Report.parse report = .ok ds) (hd : d ∈ ds) (hr : d.lineRange? = some r) :
    (d.ShiftOverflows d.documentLine ↔ d.line = 2 ^ 63) ∧
      (d.shiftedRange? d.documentLine = some ⟨r.first - 1, r.last - 1⟩ ↔
        d.line ≠ 0 ∨ r = ⟨0, 0⟩) := by
  have hcount := Report.countable_of_parse h hd
  refine ⟨shiftOverflows_documentLine_iff hcount.1, ?_⟩
  rw [shiftedRange?_documentLine hcount hr, Option.some_inj]
  by_cases hline : d.line = 0
  · obtain ⟨first, last⟩ := r
    simp only [hline, if_true, ne_eq, not_true_eq_false, false_or, LineRange.mk.injEq]
    omega
  · simp [hline]

set_option maxRecDepth 1000 in
/-- The report of a finding on line 5 with a range from there to line 7. -/
theorem shiftedRange?_reported_block :
    let report := "\x7b\"Issues\":[\x7b\"FromLinter\":\"whitespace\",\"Text\":\"\"," ++
      "\"Pos\":\x7b\"Filename\":\"a\",\"Line\":5\x7d," ++
      "\"LineRange\":\x7b\"From\":5,\"To\":7\x7d\x7d]\x7d"
    let diag : Diagnostic := ⟨"whitespace", "", "a", 5, 0, some ⟨5, 7⟩, "whitespace"⟩
    Report.parse report = .ok [diag] ∧ ¬ diag.ShiftOverflows diag.documentLine ∧
      diag.shiftedRange? diag.documentLine = some ⟨4, 6⟩ := by
  intro report diag
  have hparse : Report.parse report = .ok [diag] := by
    simp only [report, diag]
    rfl
  have h := shiftedRange?_reported_iff hparse (List.mem_singleton.2 rfl) rfl
  exact ⟨hparse, mt h.1.1 (by decide), h.2.2 (.inl (by decide))⟩

/-- The range of a finding that is reported without a line is taken to count from zero. -/
theorem shiftedRange?_reported_without_line :
    let report := "\x7b\"Issues\":[\x7b\"FromLinter\":\"whitespace\",\"Text\":\"\"," ++
      "\"Pos\":\x7b\"Filename\":\"a\"\x7d,\"LineRange\":\x7b\"From\":2,\"To\":2\x7d\x7d]\x7d"
    let diag : Diagnostic := ⟨"whitespace", "", "a", 0, 0, some ⟨2, 2⟩, "whitespace"⟩
    Report.parse report = .ok [diag] ∧ diag.shiftedRange? diag.documentLine = some ⟨2, 2⟩ :=
  ⟨by rfl, by decide⟩

end Diagnostic
end Mend
