import Mend.Proofs.MovedLines
import Mend.Proofs.NewLines

/-! Adding the missing cases to a switch. One line is put in above the line of the closing brace,
with the indentation of the last clause; a brace behind other text comes to stand on a line of its
own. -/
namespace Mend

namespace Wording

variable {message part : List Char}

/-- The message has a colon and a space, for the first time, in front of `part`. -/
def Announces (message part : List Char) : Prop :=
  ∃ before, message = before ++ ':' :: ' ' :: part ∧ ¬ [':', ' '] <:+: before ++ [':']

theorem afterColon?_eq_some : afterColon? message = some part ↔ Announces message part := by
  fun_induction afterColon? message with
  | case1 => simp [Announces]
  | case2 rest =>
    constructor
    · intro h
      exact ⟨[], by rw [Option.some.inj h]; rfl, by decide⟩
    · rintro ⟨before, hmessage, hfirst⟩
      rcases before with _ | ⟨a, _ | ⟨b, before⟩⟩
      · rw [(List.cons.inj (List.cons.inj hmessage).2).2]
      · cases hmessage
      · obtain ⟨rfl, htail⟩ := List.cons.inj hmessage
        obtain ⟨rfl, -⟩ := List.cons.inj htail
        exact absurd ⟨[], before ++ [':'], rfl⟩ hfirst
  | case3 c rest hne ih =>
    rw [ih]
    constructor
    · rintro ⟨before, rfl, hfirst⟩
      refine ⟨c :: before, rfl, fun h => ?_⟩
      rw [List.cons_append, List.infix_cons_iff] at h
      rcases h with h | h
      · -- then the colon and the space would be at the very front
        obtain ⟨rfl, hspace⟩ := List.cons_prefix_cons.1 h
        cases before with
        | nil => simp at hspace
        | cons b before =>
          obtain ⟨rfl, -⟩ := List.cons_prefix_cons.1 hspace
          exact hne (before ++ ':' :: ' ' :: part) rfl rfl
      · exact hfirst h
    · rintro ⟨before, hmessage, hfirst⟩
      rcases before with _ | ⟨a, before⟩
      · obtain ⟨rfl, rfl⟩ := List.cons.inj hmessage
        exact absurd rfl (hne part rfl)
      · obtain ⟨rfl, rfl⟩ := List.cons.inj hmessage
        exact ⟨before, rfl, fun h => hfirst (List.infix_cons_iff.2 (.inr h))⟩

theorem missingCases?_eq_some :
    missingCases? message = some part ↔ Announces message part ∧ part ≠ [] := by
  rw [missingCases?, Option.filter_eq_some_iff, afterColon?_eq_some]
  simp

end Wording

namespace Text

variable {front rest : List Char}

/-- A brace is as far from the start of its line as the indentation is long just where there are
only blanks in front of it. -/
lemma length_indent_brace :
    front.length = (indent (front ++ '}' :: rest)).length ↔ ∀ c ∈ front, c = ' ' ∨ c = '\t' := by
  constructor
  · intro h
    have hprefix : indent (front ++ '}' :: rest) <+: front ++ '}' :: rest := List.takeWhile_prefix _
    have hfront : indent (front ++ '}' :: rest) = front := by
      rw [List.prefix_iff_eq_take.1 hprefix, ← h, List.take_left]
    intro c hc
    rw [← hfront] at hc
    simpa using List.all_eq_true.1 List.all_takeWhile c hc
  · intro h
    have hall : ∀ c ∈ front, (decide (c = ' ') || decide (c = '\t')) = true := by simpa using h
    rw [indent, List.takeWhile_append_of_pos hall]
    simp

end Text

namespace Document

variable {d : Document} {above below : List (List Char)} {front rest : List Char} {brace : Nat}

/-- A brace in a document: the lines above its own, what is in front of it on its line and what
behind it, and the lines below. The lines above stay what they are if something else follows. -/
structure BraceAt (d : Document) (brace : Nat) (above : List (List Char)) (front rest : List Char)
    (below : List (List Char)) : Prop where
  lt : brace < d.length
  before : d.chars.take brace = above.flatten ++ front
  behind : Text.lines (d.chars.drop brace) = ('}' :: rest) :: below
  cut : ∀ y, (front = [] → y.head? ≠ some '\n') →
    Text.lines (above.flatten ++ front ++ y) = above ++ Text.lines (front ++ y)
  unbroken : ∀ c ∈ front, Text.isLineBreak c = false

theorem exists_braceAt (h : d.char? brace = some '}') :
    ∃ above front rest below, d.BraceAt brace above front rest below := by
  obtain ⟨hlt, hbrace⟩ := List.getElem?_eq_some_iff.1 h
  obtain ⟨above, front, hu, hfront, happ⟩ := Text.exists_lines_append (d.chars.take brace)
  obtain ⟨rest, below, hrest⟩ := List.exists_cons_of_length_pos
    (Text.length_lines_pos (d.chars.drop (brace + 1)))
  refine ⟨above, front, rest, below, hlt, hu, ?_, fun y hy => ?_, hfront⟩
  · rw [List.drop_eq_getElem_cons hlt, hbrace]
    exact Text.lines_append_of_unbroken (a := ['}']) (by simp; decide) hrest
  · rw [← hu]
    refine happ y ?_
    rintro ⟨hcr, hfeed⟩
    rw [hu, List.getLast?_append] at hcr
    cases hlast : front.getLast? with
    | none => exact hy (List.getLast?_eq_none_iff.1 hlast) hfeed
    | some c =>
      rw [hlast, Option.some_or, Option.some.injEq] at hcr
      have hbreak := hfront c (List.mem_of_getLast? hlast)
      rw [hcr] at hbreak
      exact absurd hbreak (by decide)

/-- A text put into a document leaves it as it is around the text, and gives it a line `clause`; on
the next line only blanks are in front of the brace that was at offset `brace` and what followed it
on its line. -/
structure PutsAboveBrace (d : Document) (brace : Nat) (clause : List Char) (o : Nat) (w : String)
    (e : Document) : Prop where
  applies : d.apply [.insert o w] = .ok e
  kept : e.chars = d.chars.take o ++ w.toList ++ d.chars.drop o
  lines : ∃ k m blanks front rest, e.lines[k]? = some clause ∧
    e.lines[k + 1]? = some (blanks ++ '}' :: rest) ∧ (∀ c ∈ blanks, c = ' ' ∨ c = '\t') ∧
    d.lines[m]? = some (front ++ '}' :: rest) ∧
    Text.startOf d.lines m + front.length = brace

namespace BraceAt

variable (h : d.BraceAt brace above front rest below)

include h

lemma drop_eq : d.chars.drop brace = '}' :: (rest ++ below.flatten) := by
  rw [← Text.flatten_lines (d.chars.drop brace), h.behind, List.flatten_cons, List.cons_append]

lemma lines : d.lines = above ++ (front ++ '}' :: rest) :: below := by
  have hcut := h.cut (d.chars.drop brace) fun _ => by rw [h.drop_eq]; simp
  rw [← h.before, List.take_append_drop] at hcut
  rw [Document.lines, hcut, Text.lines_append_of_unbroken h.unbroken h.behind]

lemma offset : above.flatten.length + front.length = brace := by
  rw [← List.length_append, ← h.before, List.length_take_of_le (Nat.le_of_lt h.lt)]

lemma line : d.lines[above.length]? = some (front ++ '}' :: rest) := by
  rw [h.lines, List.getElem?_append_right (Nat.le_refl _), Nat.sub_self, List.getElem?_cons_zero]

lemma lineStart? : d.lineStart? above.length = some above.flatten.length := by
  rw [lineStart?_eq_some, lineCount, Text.startOf, h.lines, List.take_left]
  simp

lemma position : d.position brace = (above.length, front.length) := by
  rw [Document.position, h.lines, ← h.offset, Nat.add_comm, Text.positionIn_append (by simp)]
  cases below <;> simp [Text.positionIn]

lemma indented_iff :
    front.length = (d.lineIndent above.length).length ↔ ∀ c ∈ front, c = ' ' ∨ c = '\t' := by
  rw [lineIndent_eq h.line, Text.length_indent_brace]

lemma startOf : Text.startOf d.lines above.length + front.length = brace := by
  rw [Text.startOf, h.lines, List.take_left, h.offset]

/-- A clause is put in as a line of its own. If there are only blanks in front of the brace this is
at the start of the brace's line, and otherwise right in front of the brace. -/
theorem appendClause? {clause : String} (hline : Text.OneLine clause.toList)
    (hhead : clause.toList.head? ≠ some '\n') :
    ∃ o w e, d.appendClause? brace clause = some (.insert o w) ∧
      d.PutsAboveBrace brace clause.toList o w e := by
  by_cases hblank : ∀ c ∈ front, c = ' ' ∨ c = '\t'
  · have hstart := h.lineStart?
    obtain ⟨e, he, hlines⟩ := lines_apply_insert hstart hline fun hfeed => absurd hfeed hhead
    have hkept := he
    rw [apply_insert (lineStart?_le hstart)] at hkept
    have hlt : above.length < d.lines.length := (lineStart?_eq_some.1 hstart).1
    refine ⟨_, clause, e, ?_, he, ?_, above.length, above.length, front, front, rest, ?_, ?_,
      hblank, h.line, h.startOf⟩
    · simp [Document.appendClause?, h.position, h.indented_iff.2 hblank, hstart]
    · rw [← Except.ok.inj hkept]
    · rw [hlines, List.getElem?_insertIdx_self, if_pos (Nat.le_of_lt hlt)]
    · rw [hlines, List.getElem?_insertIdx_of_gt (Nat.lt_add_one _), Nat.add_sub_cancel, h.line]
  · have hne : front ≠ [] := by
      rintro rfl
      exact hblank (by simp)
    have hcut := h.cut ('\n' :: (clause.toList ++ d.chars.drop brace)) fun hnil => absurd hnil hne
    rw [Text.lines_append_of_unbroken h.unbroken (Text.lines_feed _), hline.lines_append,
      h.behind] at hcut
    have hlines : Text.lines (d.chars.take brace ++ ("\n" ++ clause).toList ++ d.chars.drop brace) =
        above ++ (front ++ ['\n']) :: clause.toList :: ('}' :: rest) :: below := by
      rw [← hcut, h.before]
      simp
    refine ⟨brace, "\n" ++ clause, _, ?_, apply_insert (Nat.le_of_lt h.lt), rfl, above.length + 1,
      above.length, [], front, rest, ?_, ?_, by simp, h.line, h.startOf⟩
    · simp [Document.appendClause?, h.position, mt h.indented_iff.1 hblank]
    · rw [Document.lines, hlines, List.getElem?_append_right (Nat.le_add_right _ _),
        Nat.add_sub_cancel_left]
      rfl
    · rw [Document.lines, hlines, List.getElem?_append_right (by omega), Nat.add_assoc,
        Nat.add_sub_cancel_left]
      rfl

end BraceAt
end Document

namespace Site

variable {ν : Type} {s : Site ν} {switch : ν} {brace : Nat} {part : List Char} {c : Candidate}

/-- The last character of a switch is a closing brace, at offset `brace`. -/
def ClosedBy (s : Site ν) (switch : ν) (brace : Nat) : Prop :=
  (s.tree.span switch).stop = brace + 1 ∧ s.document.char? brace = some '}'

/-- The last clause of a switch is its default clause. -/
def EndsInDefault (s : Site ν) (switch : ν) : Prop :=
  ∃ clause, (s.clauses switch).getLast? = some clause ∧ s.tree.kind clause = .defaultClause

/-- Where the line stands from which a new clause takes its indentation: at the start of the last
clause, or at the brace that closes a switch without clauses. -/
def indentOffset (s : Site ν) (switch : ν) (brace : Nat) : Nat :=
  match (s.clauses switch).getLast? with
  | some clause => (s.tree.span clause).start
  | none => brace

lemma appendCases?_of_closedBy (h : s.ClosedBy switch brace) (cases : List Char) :
    s.appendCases? switch (s.clauses switch).getLast? cases =
      s.document.appendClause? brace (String.ofList (s.document.lineIndent
        (s.document.position (s.indentOffset switch brace)).1) ++ "case " ++
          String.ofList cases ++ ":\n") := by
  obtain ⟨hstop, hbrace⟩ := h
  unfold appendCases? indentOffset
  rw [hstop]
  cases (s.clauses switch).getLast? <;> exact if_pos hbrace

lemma exists_closedBy_of_appendCases? {last? : Option ν} {cases : List Char} {e : Edit}
    (h : s.appendCases? switch last? cases = some e) : ∃ brace, s.ClosedBy switch brace := by
  unfold appendCases? at h
  simp only at h
  split at h
  · cases h
  · rename_i brace hstop
    split at h
    · rename_i hbrace
      exact ⟨brace, hstop, hbrace⟩
    · cases h

lemma mem_addMissingCases (hswitch : s.locate? .switchStatement = some switch) :
    c ∈ s.addMissingCases.candidates ↔ ¬ s.EndsInDefault switch ∧
      ∃ part e, Wording.missingCases? s.diagnostic.message.toList = some part ∧
        s.appendCases? switch (s.clauses switch).getLast? part = some e ∧
        c = ⟨"Add missing cases", .edits [e]⟩ := by
  have hdefault : ((s.clauses switch).getLast?.any fun c => s.tree.kind c = .defaultClause) = true ↔
      s.EndsInDefault switch := by
    simp [EndsInDefault, Option.any_eq_true]
  unfold addMissingCases
  simp only [hswitch]
  split
  · rename_i hlast
    simp [Resolution.highlightOnly, hdefault.1 hlast]
  · rename_i hlast
    have hnot := mt hdefault.2 hlast
    cases hpart : Wording.missingCases? s.diagnostic.message.toList with
    | none => simp [Resolution.ofCandidate?]
    | some part =>
      cases hedit : s.appendCases? switch (s.clauses switch).getLast? part with
      | none => simp [Resolution.ofCandidate?, hedit]
      | some e => simp [Resolution.ofCandidate?, hedit, hnot, eq_comm]

/-- The line of a new clause. -/
lemma toList_clause (indent cases : List Char) :
    (String.ofList indent ++ "case " ++ String.ofList cases ++ ":\n").toList =
      indent ++ "case ".toList ++ cases ++ ":\n".toList := by
  simp

lemma oneLine_clause {indent cases : List Char} (hindent : ∀ c ∈ indent, c = ' ' ∨ c = '\t')
    (hcases : ∀ c ∈ cases, Text.isLineBreak c = false) :
    Text.OneLine (indent ++ "case ".toList ++ cases ++ ":\n".toList) ∧
      (indent ++ "case ".toList ++ cases ++ ":\n".toList).head? ≠ some '\n' := by
  constructor
  · refine ⟨indent ++ "case ".toList ++ cases ++ [':'], ?_, by simp⟩
    intro c hc
    simp only [List.mem_append] at hc
    rcases hc with ((hc | hc) | hc) | hc
    · rcases hindent c hc with rfl | rfl <;> decide
    · exact Text.unbroken_of_all (by decide) c hc
    · exact hcases c hc
    · exact Text.unbroken_of_all (by decide) c hc
  · cases indent with
    | nil => simp
    | cons c indent => rcases hindent c (by simp) with rfl | rfl <;> simp

lemma indentOffset_le (ht : s.tree.Within s.document.length) (hswitch : s.tree.Reachable switch)
    (h : s.ClosedBy switch brace) : s.indentOffset switch brace ≤ s.document.length := by
  unfold indentOffset
  split
  · rename_i clause hlast
    have hmem := List.mem_of_getLast? hlast
    obtain ⟨hle, hstop⟩ := ht clause (hswitch.child (List.mem_filter.1 hmem).1)
    omega
  · obtain ⟨-, hstop⟩ := ht switch hswitch
    rw [h.1] at hstop
    omega

/-- Where a switch ends with a brace, cases are added above the brace, indented as they should. -/
theorem appendCases?_putsAboveBrace (ht : s.tree.Within s.document.length)
    (hswitch : s.tree.Reachable switch) (h : s.ClosedBy switch brace)
    (hpart : ∀ c ∈ part, Text.isLineBreak c = false) :
    ∃ o w e l line, s.appendCases? switch (s.clauses switch).getLast? part = some (.insert o w) ∧
      s.document.OnLine l (s.indentOffset switch brace) ∧ s.document.lines[l]? = some line ∧
      s.document.PutsAboveBrace brace
        (Text.indent line ++ "case ".toList ++ part ++ ":\n".toList) o w e := by
  have honline := Document.onLine_position (indentOffset_le ht hswitch h)
  obtain ⟨start, hstart, -⟩ := id honline
  obtain ⟨line, hline⟩ : ∃ line, s.document.lines[
      (s.document.position (s.indentOffset switch brace)).1]? = some line :=
    ⟨_, List.getElem?_eq_getElem (Document.lineStart?_eq_some.1 hstart).1⟩
  obtain ⟨above, front, rest, below, hbrace⟩ := Document.exists_braceAt h.2
  have hindent : ∀ c ∈ Text.indent line, c = ' ' ∨ c = '\t' := by
    rw [← Document.lineIndent_eq hline]
    exact fun _ => Document.mem_lineIndent
  obtain ⟨hone, hhead⟩ := oneLine_clause hindent hpart
  rw [← toList_clause] at hone hhead
  obtain ⟨o, w, e, hedit, hputs⟩ := hbrace.appendClause? hone hhead
  rw [toList_clause] at hputs
  refine ⟨o, w, e, _, line, ?_, honline, hline, hputs⟩
  rw [appendCases?_of_closedBy h, Document.lineIndent_eq hline, hedit]

/-- The missing cases are added to a switch just where it ends with a closing brace and not with a
default clause, and the message names cases behind its first colon with a space. They are put in as
one line, indented like the line on which the last clause starts, or like that of the brace if there
is no clause; on the next line only blanks are in front of the brace and what followed it. -/
theorem missing_cases_added (s : Site ν) (ht : s.tree.Within s.document.length) {switch : ν}
    (hswitch : s.locate? .switchStatement = some switch)
    (hcases : ∀ part, Wording.Announces s.diagnostic.message.toList part →
      ∀ c ∈ part, Text.isLineBreak c = false) :
    ∃ r, Strategy.addMissingCases.resolveAt s = .ok r ∧
      (r.candidates ≠ [] ↔ (∃ brace, s.ClosedBy switch brace) ∧ ¬ s.EndsInDefault switch ∧
        ∃ part, Wording.Announces s.diagnostic.message.toList part ∧ part ≠ []) ∧
      ∀ c ∈ r.candidates, ∃ brace part o w e l line,
        s.ClosedBy switch brace ∧ Wording.Announces s.diagnostic.message.toList part ∧
        c.edits? = some [.insert o w] ∧ s.document.OnLine l (s.indentOffset switch brace) ∧
        s.document.lines[l]? = some line ∧
        s.document.PutsAboveBrace brace
          (Text.indent line ++ "case ".toList ++ part ++ ":\n".toList) o w e := by
  have hreach : s.tree.Reachable switch := Tree.Reachable.locate? hswitch
  refine ⟨s.addMissingCases, rfl, ⟨fun hne => ?_, ?_⟩, fun c hc => ?_⟩
  · obtain ⟨c, hc⟩ := List.exists_mem_of_ne_nil _ hne
    obtain ⟨hdefault, part, e, hpart, hedit, -⟩ := (mem_addMissingCases hswitch).1 hc
    exact ⟨exists_closedBy_of_appendCases? hedit, hdefault, part,
      Wording.missingCases?_eq_some.1 hpart⟩
  · rintro ⟨⟨brace, hbrace⟩, hdefault, part, hpart⟩
    obtain ⟨o, w, _, _, _, hedit, -⟩ :=
      appendCases?_putsAboveBrace ht hreach hbrace (hcases part hpart.1)
    exact List.ne_nil_of_mem ((mem_addMissingCases hswitch).2
      ⟨hdefault, part, _, Wording.missingCases?_eq_some.2 hpart, hedit, rfl⟩)
  · obtain ⟨-, part, e', hpart, hedit', rfl⟩ := (mem_addMissingCases hswitch).1 hc
    obtain ⟨hannounced, -⟩ := Wording.missingCases?_eq_some.1 hpart
    obtain ⟨brace, hbrace⟩ := exists_closedBy_of_appendCases? hedit'
    obtain ⟨o, w, e, l, line, hedit, honline, hline, hputs⟩ :=
      appendCases?_putsAboveBrace ht hreach hbrace (hcases part hannounced)
    obtain rfl := Option.some.inj (hedit'.symm.trans hedit)
    exact ⟨brace, part, o, w, e, l, line, hbrace, hannounced, rfl, honline, hline, hputs⟩

/-- A switch on one line: its brace comes to stand below the new clause. -/
theorem missing_cases_added_one_line :
    let d := Document.ofString "package a\n\nfunc f(x T) \x7b\n\tswitch x \x7b case A: \x7d\n\x7d\n"
    let message := "missing cases in switch of type T: B, C"
    let s : Site _ :=
      ⟨(Go.parse d.chars).tree, d, ⟨"exhaustive", message, "a.go", 4, 2, none, "exhaustive"⟩, 3⟩
    ∃ e l line, d.OnLine l 37 ∧ d.lines[l]? = some line ∧
      Strategy.addMissingCases.resolveAt s = .ok (.single
        ⟨"Add missing cases", .edits [.insert 45 "\n\tcase B, C:\n"]⟩ (some ⟨33, 34⟩)) ∧
      d.PutsAboveBrace 45 (Text.indent line ++ "case ".toList ++ "B, C".toList ++ ":\n".toList)
        45 "\n\tcase B, C:\n" e := by
  intro d message s
  let c : Candidate := ⟨"Add missing cases", .edits [.insert 45 "\n\tcase B, C:\n"]⟩
  have hoffer : s.addMissingCases = .single c (some ⟨33, 34⟩) := by decide +kernel
  have hplace : (s.locate? .switchStatement).map
      (fun n => ((s.tree.span n).stop, s.indentOffset n 45)) = some (46, 37) := by decide +kernel
  obtain ⟨switch, hswitch, hspan⟩ := Option.map_eq_some_iff.1 hplace
  obtain ⟨hstop, hindent⟩ := Prod.mk.inj hspan
  have hpart {part : List Char} (h : Wording.Announces message.toList part) :
      part = "B, C".toList :=
    Option.some.inj ((Wording.afterColon?_eq_some.2 h).symm.trans (by decide))
  obtain ⟨r, hr, -, hall⟩ := missing_cases_added s (Go.tree_within d.chars) hswitch
    fun part h => hpart h ▸ Text.unbroken_of_all (by decide)
  obtain rfl := Except.ok.inj hr
  have hc : c ∈ s.addMissingCases.candidates := by
    rw [hoffer]
    exact List.mem_singleton.2 rfl
  obtain ⟨brace, part, o, w, e, l, line, hbrace, hannounced, hedits, honline, hline, hputs⟩ :=
    hall c hc
  obtain rfl : brace = 45 := Nat.succ.inj (hbrace.1.symm.trans hstop)
  obtain rfl := hpart hannounced
  rw [hindent] at honline
  cases hedits
  exact ⟨e, l, line, honline, hline, congrArg Except.ok hoffer, hputs⟩

end Site
end Mend
