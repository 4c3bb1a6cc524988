import Mend.Linter.Report
import Mend.Proofs.Json.Records

/-! Reports are read as findings. An issue means one finding, however its object is written; an
issue that lacks something, says something twice or says it in another type makes the whole report
an error. -/
namespace Mend.Report

open Json

variable {α : Type}

/-- The object has a member of that name, or none and then `default` is meant. -/
def MayHave (ms : List (Option (List Char) × Value)) (name : String) (M : Value → α → Prop)
    (default a : α) : Prop := values ms name = [] ∧ a = default ∨ Has ms name M a

/-- A range has both its lines. -/
inductive IsRange : Value → LineRange → Prop
  | object {ms r} (hms : Named ms) (hfirst : Has ms "From" Value.IsCount r.first)
      (hlast : Has ms "To" Value.IsCount r.last) : IsRange (.object ms) r
  | list {v w r} (hfirst : v.IsCount r.first) (hlast : w.IsCount r.last) : IsRange (.list [v, w]) r

/-- Where an issue is. -/
structure Place where
  file : String
  line : Nat
  column : Nat

/-- A place has a file; its line and its column are zero by default. -/
inductive IsPlace : Value → Place → Prop
  | object {ms p} (hms : Named ms) (hfile : Has ms "Filename" Value.IsText p.file)
      (hline : MayHave ms "Line" Value.IsCount 0 p.line)
      (hcolumn : MayHave ms "Column" Value.IsCount 0 p.column) : IsPlace (.object ms) p
  | file {u file} (hfile : u.IsText file) : IsPlace (.list [u]) ⟨file, 0, 0⟩
  | line {u v file line} (hfile : u.IsText file) (hline : v.IsCount line) :
      IsPlace (.list [u, v]) ⟨file, line, 0⟩
  | column {u v w file line column} (hfile : u.IsText file) (hline : v.IsCount line)
      (hcolumn : w.IsCount column) : IsPlace (.list [u, v, w]) ⟨file, line, column⟩

/-- The finding of an issue. Its linter is both the rule and the source. -/
def finding (linter message : String) (p : Place) (range? : Option LineRange) : Diagnostic :=
  ⟨linter, message, p.file, p.line, p.column, range?, linter⟩

/-- An issue has a linter, a text and a place; its range may be missing or null. -/
inductive IsIssue : Value → Diagnostic → Prop
  | object {ms linter message p range?} (hms : Named ms)
      (hlinter : Has ms "FromLinter" Value.IsText linter)
      (htext : Has ms "Text" Value.IsText message) (hplace : Has ms "Pos" IsPlace p)
      (hrange : MayHave ms "LineRange" (Value.IsNullOr IsRange) none range?) :
      IsIssue (.object ms) (finding linter message p range?)
  | place {t u v linter message p} (hlinter : t.IsText linter) (htext : u.IsText message)
      (hplace : IsPlace v p) : IsIssue (.list [t, u, v]) (finding linter message p none)
  | range {t u v w linter message p range?} (hlinter : t.IsText linter) (htext : u.IsText message)
      (hplace : IsPlace v p) (hrange : w.IsNullOr IsRange range?) :
      IsIssue (.list [t, u, v, w]) (finding linter message p range?)

/-- A report has a list of issues, which may be missing or null. -/
inductive IsReport : Value → List Diagnostic → Prop
  | object {ms issues?} (hms : Named ms)
      (hissues : MayHave ms "Issues" (Value.IsNullOr (Value.IsListOf IsIssue)) none issues?) :
      IsReport (.object ms) (issues?.getD [])
  | empty : IsReport (.list []) []
  | list {v issues?} (hissues : v.IsNullOr (Value.IsListOf IsIssue) issues?) :
      IsReport (.list [v]) (issues?.getD [])

/-- Records are written as objects, or as lists of their fields. -/
def IsRecord : Value → Prop
  | .object _ | .list _ => True
  | _ => False

inductive FaultyRange : Value → Prop
  | type {v} (hv : ¬ IsRecord v) : FaultyRange v
  | lacks {ms name} (hname : name ∈ ["From", "To"]) (h : values ms name = []) :
      FaultyRange (.object ms)
  | repeats {ms name} (hname : name ∈ ["From", "To"]) (h : 2 ≤ (values ms name).length) :
      FaultyRange (.object ms)
  | count {ms name v} (hname : name ∈ ["From", "To"]) (hv : v ∈ values ms name)
      (h : ∀ n, ¬ v.IsCount n) : FaultyRange (.object ms)

inductive FaultyPlace : Value → Prop
  | type {v} (hv : ¬ IsRecord v) : FaultyPlace v
  | lacks {ms} (h : values ms "Filename" = []) : FaultyPlace (.object ms)
  | repeats {ms name} (hname : name ∈ ["Filename", "Line", "Column"])
      (h : 2 ≤ (values ms name).length) : FaultyPlace (.object ms)
  | text {ms v} (hv : v ∈ values ms "Filename") (h : ∀ s, ¬ v.IsText s) : FaultyPlace (.object ms)
  | count {ms name v} (hname : name ∈ ["Line", "Column"]) (hv : v ∈ values ms name)
      (h : ∀ n, ¬ v.IsCount n) : FaultyPlace (.object ms)

/-- An issue's object lacks what it has to have, repeats a member, or has a member of a wrong type,
itself or in its place or range. Only the range may be null. -/
inductive FaultyIssue : Value → Prop
  | lacks {ms name} (hname : name ∈ ["FromLinter", "Text", "Pos"]) (h : values ms name = []) :
      FaultyIssue (.object ms)
  | repeats {ms name} (hname : name ∈ ["FromLinter", "Text", "Pos", "LineRange"])
      (h : 2 ≤ (values ms name).length) : FaultyIssue (.object ms)
  | text {ms name v} (hname : name ∈ ["FromLinter", "Text"]) (hv : v ∈ values ms name)
      (h : ∀ s, ¬ v.IsText s) : FaultyIssue (.object ms)
  | place {ms v} (hv : v ∈ values ms "Pos") (h : FaultyPlace v) : FaultyIssue (.object ms)
  | range {ms v} (hv : v ∈ values ms "LineRange") (hnull : v ≠ .null) (h : FaultyRange v) :
      FaultyIssue (.object ms)

section Faults

variable {ms : List (Option (List Char) × Value)}

lemma MayHave.all {name : String} {M : Value → α → Prop} {default a : α}
    (h : MayHave ms name M default a) :
    (values ms name).length < 2 ∧ ∀ v ∈ values ms name, M v a := by
  rcases h with ⟨hv, _⟩ | h
  · simp [hv]
  · exact ⟨by rw [h.all.1]; decide, h.all.2⟩

lemma FaultyRange.not_isRange {v : Value} (h : FaultyRange v) (r : LineRange) : ¬ IsRange v r := by
  intro hr
  have hmembers {ms} (hr : IsRange (.object ms) r) {name} (hname : name ∈ ["From", "To"]) :
      (values ms name).length = 1 ∧ ∀ v ∈ values ms name, ∃ n, v.IsCount n := by
    cases hr with
    | object _ hfirst hlast =>
      simp only [List.mem_cons, List.not_mem_nil, or_false] at hname
      rcases hname with rfl | rfl
      · exact ⟨hfirst.all.1, fun v hv => ⟨_, hfirst.all.2 v hv⟩⟩
      · exact ⟨hlast.all.1, fun v hv => ⟨_, hlast.all.2 v hv⟩⟩
  cases h with
  | type hv => cases hr <;> exact hv trivial
  | lacks hname hvs => simpa [hvs] using (hmembers hr hname).1
  | repeats hname hvs =>
    have := (hmembers hr hname).1
    omega
  | count hname hv hcount =>
    obtain ⟨n, hn⟩ := (hmembers hr hname).2 _ hv
    exact hcount n hn

lemma FaultyPlace.not_isPlace {v : Value} (h : FaultyPlace v) (p : Place) : ¬ IsPlace v p := by
  intro hp
  cases h with
  | type hv => cases hp <;> exact hv trivial
  | lacks hvs =>
    cases hp with
    | object _ hfile _ _ => simpa [hvs] using hfile.all.1
  | repeats hname hvs =>
    cases hp with
    | object _ hfile hline hcolumn =>
      have hfile := hfile.all.1
      have hline := hline.all.1
      have hcolumn := hcolumn.all.1
      simp only [List.mem_cons, List.not_mem_nil, or_false] at hname
      rcases hname with rfl | rfl | rfl <;> omega
  | text hv htext =>
    cases hp with
    | object _ hfile _ _ => exact htext _ (hfile.all.2 _ hv)
  | count hname hv hcount =>
    cases hp with
    | object _ _ hline hcolumn =>
      simp only [List.mem_cons, List.not_mem_nil, or_false] at hname
      rcases hname with rfl | rfl
      · exact hcount _ (hline.all.2 _ hv)
      · exact hcount _ (hcolumn.all.2 _ hv)

theorem FaultyIssue.not_isIssue {v : Value} (h : FaultyIssue v) (x : Diagnostic) :
    ¬ IsIssue v x := by
  intro hx
  cases hx with
  | place => cases h
  | range => cases h
  | @object ms linter message p range? hms hlinter htext hplace hrange =>
    cases h with
    | lacks hname hvs =>
      have hlinter := hlinter.all.1
      have htext := htext.all.1
      have hplace := hplace.all.1
      simp only [List.mem_cons, List.not_mem_nil, or_false] at hname
      rcases hname with rfl | rfl | rfl <;> simp_all
    | repeats hname hvs =>
      have hlinter := hlinter.all.1
      have htext := htext.all.1
      have hplace := hplace.all.1
      have hrange := hrange.all.1
      simp only [List.mem_cons, List.not_mem_nil, or_false] at hname
      rcases hname with rfl | rfl | rfl | rfl <;> omega
    | text hname hv htexts =>
      simp only [List.mem_cons, List.not_mem_nil, or_false] at hname
      rcases hname with rfl | rfl
      · exact htexts _ (hlinter.all.2 _ hv)
      · exact htexts _ (htext.all.2 _ hv)
    | place hv hfaulty => exact hfaulty.not_isPlace p (hplace.all.2 _ hv)
    | range hv hnull hfaulty =>
      cases range? with
      | none => exact hnull (hrange.all.2 _ hv)
      | some r => exact hfaulty.not_isRange r (hrange.all.2 _ hv).2

end Faults

def rangeFields : rangeShape.Fields where
  all := [
    ⟨"From", true, Nat, count, (·.first), fun d n => { d with first := some n }, Value.IsCount,
      reads_natural "usize"⟩,
    ⟨"To", true, Nat, count, (·.last), fun d n => { d with last := some n }, Value.IsCount,
      reads_natural "usize"⟩]
  slots := rfl
  empty := by simp [rangeShape]
  get_set := by simp
  get_set_of_ne := by simp
  name_inj := by simp
  ext := by
    rintro ⟨⟩ ⟨⟩ h
    simpa using h

theorem isRange_iff {v : Value} {r : LineRange} :
    IsRange v r ↔
      ∃ d, rangeFields.Means v d ∧ (⟨d.first.getD 0, d.last.getD 0⟩ : LineRange) = r := by
  constructor
  · rintro (⟨hms, hfirst, hlast⟩ | ⟨hfirst, hlast⟩)
    · refine ⟨⟨some r.first, some r.last⟩, ⟨hms, ?_⟩, rfl⟩
      simp [rangeFields, Field.Holds, hfirst, hlast]
    · refine ⟨⟨some r.first, some r.last⟩, ?_, rfl⟩
      simp [rangeFields, rangeShape, hfirst, hlast]
  · rintro ⟨d, hd, rfl⟩
    cases v with
    | object ms =>
      obtain ⟨⟨first, hfirst, hd₁⟩, last, hlast, hd₂⟩ :
          (∃ a, Has ms "From" Value.IsCount a ∧ d.first = some a) ∧
            ∃ b, Has ms "To" Value.IsCount b ∧ d.last = some b := by
        simpa [rangeFields, Field.Holds] using hd.2
      exact .object hd.1 (by simpa [hd₁]) (by simpa [hd₂])
    | list vs =>
      obtain _ | ⟨v, _ | ⟨w, _ | _⟩⟩ := vs
      case cons.cons.nil =>
        obtain ⟨first, hfirst, last, hlast, rfl⟩ :
            ∃ a, v.IsCount a ∧ ∃ b, w.IsCount b ∧ d = ⟨some a, some b⟩ := by
          simpa [rangeFields, rangeShape] using hd
        exact .list hfirst hlast
      all_goals simp [rangeFields] at hd
    | _ => exact hd.elim

theorem reads_lineRange : Reads lineRange IsRange := by
  have hread : lineRange = fun cs => (rangeShape.read cs).map fun x =>
      ((⟨x.1.first.getD 0, x.1.last.getD 0⟩ : LineRange), x.2) := by
    funext cs
    rw [lineRange]
    cases rangeShape.read cs <;> rfl
  rw [hread]
  exact (rangeFields.reads.map fun d => (⟨d.first.getD 0, d.last.getD 0⟩ : LineRange)).congr
    fun v r => isRange_iff

def positionFields : positionShape.Fields where
  all := [
    ⟨"Filename", true, String, text, (·.file), fun d s => { d with file := some s }, Value.IsText,
      reads_text⟩,
    ⟨"Line", false, Nat, count, (·.line), fun d n => { d with line := some n }, Value.IsCount,
      reads_natural "usize"⟩,
    ⟨"Column", false, Nat, count, (·.column), fun d n => { d with column := some n },
      Value.IsCount, reads_natural "usize"⟩]
  slots := rfl
  empty := by simp [positionShape]
  get_set := by simp
  get_set_of_ne := by simp
  name_inj := by simp
  ext := by
    rintro ⟨⟩ ⟨⟩ h
    simpa using h

def PositionDraft.place (d : PositionDraft) : Place :=
  ⟨d.file.getD "", d.line.getD 0, d.column.getD 0⟩

lemma join_eq_getD (o : Option (Option α)) : o.join = o.getD none := by
  cases o <;> rfl

lemma mayHave_iff {ms : List (Option (List Char) × Value)} {name : String} {M : Value → α → Prop}
    {default a : α} : MayHave ms name M default a ↔ ∃ o : Option α,
      (values ms name = [] ∧ o = none ∨ ∃ b, Has ms name M b ∧ o = some b) ∧
        o.getD default = a := by
  constructor
  · rintro (⟨hvs, rfl⟩ | ha)
    · exact ⟨none, .inl ⟨hvs, rfl⟩, rfl⟩
    · exact ⟨some a, .inr ⟨a, ha, rfl⟩, rfl⟩
  · rintro ⟨_, ⟨hvs, rfl⟩ | ⟨b, hb, rfl⟩, rfl⟩
    · exact .inl ⟨hvs, rfl⟩
    · exact .inr hb

theorem isPlace_iff {v : Value} {p : Place} :
    IsPlace v p ↔ ∃ d, positionFields.Means v d ∧ d.place = p := by
  constructor
  · rintro (⟨hms, hfile, hline, hcolumn⟩ | hfile | ⟨hfile, hline⟩ | ⟨hfile, hline, hcolumn⟩)
    · obtain ⟨line, hline, hline'⟩ := mayHave_iff.1 hline
      obtain ⟨column, hcolumn, hcolumn'⟩ := mayHave_iff.1 hcolumn
      refine ⟨⟨some p.file, line, column⟩, ⟨hms, ?_⟩, ?_⟩
      · simp [positionFields, Field.Holds, hfile, hline, hcolumn]
      · simp [PositionDraft.place, hline', hcolumn']
    · exact ⟨⟨some _, none, none⟩, by simp [positionFields, positionShape, hfile], rfl⟩
    · exact ⟨⟨some _, some _, none⟩, by simp [positionFields, positionShape, hfile, hline], rfl⟩
    · exact ⟨⟨some _, some _, some _⟩,
        by simp [positionFields, positionShape, hfile, hline, hcolumn], rfl⟩
  · rintro ⟨d, hd, rfl⟩
    cases v with
    | object ms =>
      obtain ⟨⟨file, hfile, hd₁⟩, hline, hcolumn⟩ :
          (∃ s, Has ms "Filename" Value.IsText s ∧ d.file = some s) ∧
            (values ms "Line" = [] ∧ d.line = none ∨
              ∃ n, Has ms "Line" Value.IsCount n ∧ d.line = some n) ∧
            (values ms "Column" = [] ∧ d.column = none ∨
              ∃ n, Has ms "Column" Value.IsCount n ∧ d.column = some n) := by
        simpa [positionFields, Field.Holds] using hd.2
      exact .object hd.1 (by simpa [PositionDraft.place, hd₁]) (mayHave_iff.2 ⟨_, hline, rfl⟩)
        (mayHave_iff.2 ⟨_, hcolumn, rfl⟩)
    | list vs =>
      obtain _ | ⟨u, _ | ⟨v, _ | ⟨w, _ | _⟩⟩⟩ := vs
      case cons.nil =>
        obtain ⟨file, hfile, rfl⟩ : ∃ a, u.IsText a ∧ d = ⟨some a, none, none⟩ := by
          simpa [positionFields, positionShape] using hd
        exact .file hfile
      case cons.cons.nil =>
        obtain ⟨file, hfile, line, hline, rfl⟩ :
            ∃ a, u.IsText a ∧ ∃ b, v.IsCount b ∧ d = ⟨some a, some b, none⟩ := by
          simpa [positionFields, positionShape] using hd
        exact .line hfile hline
      case cons.cons.cons.nil =>
        obtain ⟨file, hfile, line, hline, column, hcolumn, rfl⟩ : ∃ a, u.IsText a ∧
            ∃ b, v.IsCount b ∧ ∃ c, w.IsCount c ∧ d = ⟨some a, some b, some c⟩ := by
          simpa [positionFields, positionShape] using hd
        exact .column hfile hline hcolumn
      all_goals simp [positionFields] at hd
    | _ => exact hd.elim

def issueFields : issueShape.Fields where
  all := [
    ⟨"FromLinter", true, String, text, (·.linter), fun d s => { d with linter := some s },
      Value.IsText, reads_text⟩,
    ⟨"Text", true, String, text, (·.text), fun d s => { d with text := some s }, Value.IsText,
      reads_text⟩,
    ⟨"Pos", true, PositionDraft, positionShape.read, (·.position),
      fun d p => { d with position := some p }, positionFields.Means, positionFields.reads⟩,
    ⟨"LineRange", false, Option LineRange, optional lineRange, (·.lineRange),
      fun d r => { d with lineRange := some r }, Value.IsNullOr IsRange, reads_lineRange.optional⟩]
  slots := rfl
  empty := by simp [issueShape]
  get_set := by simp
  get_set_of_ne := by simp
  name_inj := by simp
  ext := by
    rintro ⟨⟩ ⟨⟩ h
    simpa using h

lemma has_place {ms : List (Option (List Char) × Value)} {p : Place} : Has ms "Pos" IsPlace p ↔
    ∃ d, Has ms "Pos" positionFields.Means d ∧ d.place = p := by
  constructor
  · rintro ⟨v, hv, hp⟩
    obtain ⟨d, hd, rfl⟩ := isPlace_iff.1 hp
    exact ⟨d, ⟨v, hv, hd⟩, rfl⟩
  · rintro ⟨d, ⟨v, hv, hd⟩, rfl⟩
    exact ⟨v, hv, isPlace_iff.2 ⟨d, hd, rfl⟩⟩

theorem isIssue_iff {v : Value} {x : Diagnostic} :
    IsIssue v x ↔ ∃ d, issueFields.Means v d ∧ d.finding = x := by
  constructor
  · rintro (@⟨ms, linter, message, p, range?, hms, hlinter, htext, hplace, hrange⟩ |
      @⟨t, u, v, linter, message, p, hlinter, htext, hplace⟩ |
      @⟨t, u, v, w, linter, message, p, range?, hlinter, htext, hplace, hrange⟩)
    · obtain ⟨place, hdraft, rfl⟩ := has_place.1 hplace
      obtain ⟨range, hranges, rfl⟩ := mayHave_iff.1 hrange
      refine ⟨⟨some linter, some message, some place, range⟩, ⟨hms, ?_⟩, ?_⟩
      · simp [issueFields, Field.Holds, hlinter, htext, hdraft, hranges]
      · simp [IssueDraft.finding, finding, PositionDraft.place, join_eq_getD]
    · obtain ⟨place, hdraft, rfl⟩ := isPlace_iff.1 hplace
      exact ⟨⟨some linter, some message, some place, none⟩,
        by simp [issueFields, issueShape, hlinter, htext, hdraft], rfl⟩
    · obtain ⟨place, hdraft, rfl⟩ := isPlace_iff.1 hplace
      exact ⟨⟨some linter, some message, some place, some range?⟩,
        by simp [issueFields, issueShape, hlinter, htext, hdraft, hrange], rfl⟩
  · rintro ⟨d, hd, rfl⟩
    cases v with
    | object ms =>
      obtain ⟨⟨linter, hlinter, hd₁⟩, ⟨message, htext, hd₂⟩, ⟨place, hplace, hd₃⟩, hrange⟩ :
          (∃ s, Has ms "FromLinter" Value.IsText s ∧ d.linter = some s) ∧
            (∃ s, Has ms "Text" Value.IsText s ∧ d.text = some s) ∧
            (∃ p, Has ms "Pos" positionFields.Means p ∧ d.position = some p) ∧
            (values ms "LineRange" = [] ∧ d.lineRange = none ∨
              ∃ r, Has ms "LineRange" (Value.IsNullOr IsRange) r ∧ d.lineRange = some r) := by
        simpa [issueFields, Field.Holds] using hd.2
      have hfinding : d.finding = finding linter message place.place (d.lineRange.getD none) := by
        simp [IssueDraft.finding, finding, PositionDraft.place, hd₁, hd₂, hd₃, join_eq_getD]
      rw [hfinding]
      exact .object hd.1 hlinter htext (has_place.2 ⟨place, hplace, rfl⟩)
        (mayHave_iff.2 ⟨_, hrange, rfl⟩)
    | list vs =>
      obtain _ | ⟨t, _ | ⟨u, _ | ⟨v, _ | ⟨w, _ | _⟩⟩⟩⟩ := vs
      case cons.cons.cons.nil =>
        obtain ⟨linter, hlinter, message, htext, place, hplace, rfl⟩ : ∃ a, t.IsText a ∧
            ∃ b, u.IsText b ∧ ∃ c, positionFields.Means v c ∧
              d = ⟨some a, some b, some c, none⟩ := by
          simpa [issueFields, issueShape] using hd
        exact .place hlinter htext (isPlace_iff.2 ⟨place, hplace, rfl⟩)
      case cons.cons.cons.cons.nil =>
        obtain ⟨linter, hlinter, message, htext, place, hplace, range?, hrange, rfl⟩ :
            ∃ a, t.IsText a ∧ ∃ b, u.IsText b ∧ ∃ c, positionFields.Means v c ∧
              ∃ r, w.IsNullOr IsRange r ∧ d = ⟨some a, some b, some c, some r⟩ := by
          simpa [issueFields, issueShape] using hd
        exact .range hlinter htext (isPlace_iff.2 ⟨place, hplace, rfl⟩) hrange
      all_goals simp [issueFields] at hd
    | _ => exact hd.elim

theorem reads_issue : Reads issue IsIssue := by
  have hread : issue = fun cs => (issueShape.read cs).map fun x => (x.1.finding, x.2) := by
    funext cs
    rw [issue]
    cases issueShape.read cs <;> rfl
  rw [hread]
  exact (issueFields.reads.map IssueDraft.finding).congr fun v x => isIssue_iff

def fields : shape.Fields where
  all := [
    ⟨"Issues", false, Option (List Diagnostic), optional (list issue), (·.issues),
      fun d is => { d with issues := some is }, Value.IsNullOr (Value.IsListOf IsIssue),
      reads_issue.list.optional⟩]
  slots := rfl
  empty := by simp [shape]
  get_set := by simp
  get_set_of_ne := by simp
  name_inj := by simp
  ext := by
    rintro ⟨⟩ ⟨⟩ h
    simpa using h

theorem isReport_iff {v : Value} {ds : List Diagnostic} :
    IsReport v ds ↔ ∃ d, fields.Means v d ∧ d.issues.join.getD [] = ds := by
  constructor
  · rintro (@⟨ms, issues?, hms, hissues⟩ | _ | @⟨v, issues?, hissues⟩)
    · obtain ⟨issues, hdraft, rfl⟩ := mayHave_iff.1 hissues
      refine ⟨⟨issues⟩, ⟨hms, ?_⟩, by rw [join_eq_getD]⟩
      simp [fields, Field.Holds, hdraft]
    · exact ⟨⟨none⟩, by simp [fields, shape], rfl⟩
    · exact ⟨⟨some issues?⟩, by simp [fields, shape, hissues], rfl⟩
  · rintro ⟨d, hd, rfl⟩
    cases v with
    | object ms =>
      have hissues : values ms "Issues" = [] ∧ d.issues = none ∨
          ∃ is, Has ms "Issues" (Value.IsNullOr (Value.IsListOf IsIssue)) is ∧
            d.issues = some is := by
        simpa [fields, Field.Holds] using hd.2
      rw [join_eq_getD]
      exact .object hd.1 (mayHave_iff.2 ⟨_, hissues, rfl⟩)
    | list vs =>
      obtain _ | ⟨v, _ | _⟩ := vs
      case nil =>
        obtain rfl : d = ⟨none⟩ := by
          simpa [fields, shape] using hd
        exact .empty
      case cons.nil =>
        obtain ⟨issues?, hissues, rfl⟩ :
            ∃ is, v.IsNullOr (Value.IsListOf IsIssue) is ∧ d = ⟨some is⟩ := by
          simpa [fields, shape] using hd
        exact .list hissues
      case cons.cons => simp [fields] at hd
    | _ => exact hd.elim

theorem reads_report :
    Reads (fun cs => (shape.read cs).map fun (d, rest) => (d.issues.join.getD [], rest)) IsReport :=
  (fields.reads.map fun d => d.issues.join.getD []).congr fun _ _ => isReport_iff

/-- A faulty issue spoils the whole report. -/
lemma not_isReport {ms : List (Option (List Char) × Value)} {vs : List Value} {x : Value}
    (hms : (some "Issues".toList, .list vs) ∈ ms) (hx : x ∈ vs) (hfaulty : FaultyIssue x)
    (ds : List Diagnostic) : ¬ IsReport (.object ms) ds := by
  intro h
  have hv : .list vs ∈ values ms "Issues" :=
    List.mem_map.2 ⟨_, List.mem_filter.2 ⟨hms, by simp⟩, rfl⟩
  cases h with
  | @object ms issues? _ hissues =>
    cases issues? with
    | none => cases hissues.all.2 _ hv
    | some ds =>
      obtain ⟨_, ws, hws, hds⟩ := hissues.all.2 _ hv
      obtain rfl := Value.list.inj hws
      have hissues : List.Forall₂ (fun v x => (∃ x, IsIssue v x) ∧ IsIssue v x) vs ds :=
        hds.imp fun v x h => ⟨⟨x, h⟩, h⟩
      obtain ⟨d, hd⟩ := ((List.forall₂_and_left vs ds).1 hissues).1 x hx
      exact hfaulty.not_isIssue d hd

/-- A report is read as the findings that its value means, one for each issue and in their order,
however it is written. A faulty issue makes it an error. -/
theorem parse_written {v : Value} {cs ws ws' : List Char} (h : Writes v cs) (hws : Spaces ws)
    (hws' : Spaces ws') :
    (∀ ds, parse (String.ofList (ws ++ cs ++ ws')) = .ok ds ↔ IsReport v ds) ∧
      ∀ ms vs x, v = .object ms → (some "Issues".toList, .list vs) ∈ ms → x ∈ vs →
        FaultyIssue x → ∃ e, parse (String.ofList (ws ++ cs ++ ws')) = .error e := by
  have hparse (ds) : parse (String.ofList (ws ++ cs ++ ws')) = .ok ds ↔ IsReport v ds := by
    rw [parse, String.toList_ofList]
    exact reads_report.document h hws hws'
  refine ⟨hparse, ?_⟩
  rintro ms vs x rfl hms hx hfaulty
  cases hresult : parse (String.ofList (ws ++ cs ++ ws')) with
  | error e => exact ⟨e, rfl⟩
  | ok ds => exact absurd ((hparse ds).1 hresult) (not_isReport hms hx hfaulty ds)

/-- A member whose name needs no escapes, without white space. -/
def plainMember (m : String × Value × List Char) : Member :=
  ⟨[], some m.1.toList, m.1.toList ++ ['"'], [], ⟨[], m.2.1, m.2.2, []⟩⟩

lemma writes_plain {ms : List (String × Value × List Char)}
    (hnames : ∀ m ∈ ms, ∀ c ∈ m.1.toList, c ≠ '"' ∧ c ≠ '\\' ∧ ' ' ≤ c)
    (hms : ∀ m ∈ ms, Writes m.2.1 m.2.2) :
    Writes (.object (ms.map fun m => (some m.1.toList, m.2.1)))
      ('\x7b' :: Member.texts false (ms.map plainMember)) := by
  have h := @Writes.object [] (ms.map plainMember) spaces_nil
    (List.forall_mem_map.2 fun m _ => by simp [plainMember, Member.Spaced, Element.Spaced, Spaces])
    (List.forall_mem_map.2 fun m hm => .plain (hnames m hm)) (List.forall_mem_map.2 hms)
  rwa [List.map_map] at h

theorem parse_written_issue :
    parse ("\x7b\"Issues\":[\x7b\"Text\":\"t\",\"FromLinter\":\"l\"," ++
        "\"Pos\":\x7b\"Line\":7,\"Filename\":\"f\"\x7d\x7d]\x7d") =
      .ok [⟨"l", "t", "f", 7, 0, none, "l"⟩] := by
  have htext (c : Char) (h : c ≠ '"' ∧ c ≠ '\\' ∧ ' ' ≤ c) :
      Writes (.string (some [c])) ['"', c, '"'] :=
    .string (.char (.plain h.1 h.2.1 h.2.2) .close)
  have hline : Writes (.natural 7) ['7'] := @Writes.natural ['7'] ⟨⟨by simp, by simp⟩, by simp⟩
  have hplace := @writes_plain [("Line", _, _), ("Filename", _, _)] (by simp)
    (List.forall_mem_cons.2 ⟨hline, List.forall_mem_singleton.2 (htext 'f' (by decide))⟩)
  have hissue := @writes_plain [("Text", _, _), ("FromLinter", _, _), ("Pos", _, _)] (by simp)
    (List.forall_mem_cons.2 ⟨htext 't' (by decide), List.forall_mem_cons.2
      ⟨htext 'l' (by decide), List.forall_mem_singleton.2 hplace⟩⟩)
  have hissues := @Writes.list [] [⟨[], _, _, []⟩] spaces_nil (by simp [Element.Spaced, Spaces])
    (List.forall_mem_singleton.2 hissue)
  have hreport := @writes_plain [("Issues", _, _)] (by simp) (List.forall_mem_singleton.2 hissues)
  refine ((parse_written hreport spaces_nil spaces_nil).1 _).2 ?_
  change IsReport _ ((some [finding "l" "t" ⟨"f", 7, 0⟩ none]).getD [])
  refine .object (by simp [Named]) (.inr ⟨_, rfl, by simp, _, rfl, .cons ?_ .nil⟩)
  refine .object (by simp [Named]) ⟨_, rfl, rfl⟩ ⟨_, rfl, rfl⟩ ⟨_, rfl, ?_⟩ (.inl ⟨rfl, rfl⟩)
  exact .object (by simp [Named]) ⟨_, rfl, rfl⟩ (.inr ⟨_, rfl, rfl, by decide⟩) (.inl ⟨rfl, rfl⟩)

/-- A place may be the list of its fields. -/
theorem parse_place_list :
    parse "\x7b\"Issues\":[\x7b\"FromLinter\":\"a\",\"Text\":\"b\",\"Pos\":[\"c\",3,2]\x7d]\x7d" =
      .ok [⟨"a", "b", "c", 3, 2, none, "a"⟩] := by
  rfl

end Mend.Report
