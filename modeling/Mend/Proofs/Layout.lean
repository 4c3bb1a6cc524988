import Mend.Proofs.Go.Comments
import Mend.Proofs.Go.Fillers
import Mend.Proofs.Go.Leaves
import Mend.Proofs.Go.Spans
import Mend.Proofs.Inspection
import Mend.Proofs.Suppression

/-! Fixes that change the layout of a program only. Above a line they put in or take out what is no
part of the program, and so they do nothing to it, unless a raw string goes on over the place. -/
namespace Mend

open Go (Readable RawStringOver readable_iff significant spelled tokenize)
open Go.Scan (Filler Inside Long Spares)

variable {text w a y : List Char}

/-- A text that leaves no tokens but comments, and in which no comment and no raw string around it
ends. -/
structure Neutral (w : List Char) : Prop where
  filler : Filler w
  comment : Long.comment.Passes w
  rawString : Long.rawString.Passes w
  ne_nil : w ≠ []

theorem neutral_lineBreak (h : w = ['\n'] ∨ w = ['\r', '\n'] ∨ w = ['\r']) : Neutral w where
  filler := by
    have hall : w.all Go.Scan.isBlank = true := by rcases h with rfl | rfl | rfl <;> decide
    exact Go.Scan.filler_of_blank (List.all_eq_true.1 hall)
  comment := by
    rcases h with rfl | rfl | rfl
    · exact Go.Scan.passes_comment (x := []) (by simp) (by decide)
    · exact Go.Scan.passes_comment (x := ['\r']) (by decide) (by decide)
    · exact Go.Scan.passes_comment (x := []) (by simp) (by decide)
  rawString := by
    apply Go.Scan.passes_rawString
    rcases h with rfl | rfl | rfl <;> decide
  ne_nil := by rcases h with rfl | rfl | rfl <;> simp

theorem neutral_directiveLine {indent : List Char} {linter : String}
    (hindent : ∀ c ∈ indent, c = ' ' ∨ c = '\t') (hlinter : '\n' ∉ linter.toList)
    (hraw : '\x60' ∉ (directiveLine indent linter).toList)
    (hclose : ¬ ['*', '/'] <:+: (directiveLine indent linter).toList) :
    Neutral (directiveLine indent linter).toList where
  filler := Go.Scan.filler_directiveLine hindent hlinter
  comment := by
    rw [Go.Scan.toList_directiveLine] at hclose ⊢
    rw [← List.append_assoc] at hclose ⊢
    refine Go.Scan.passes_comment (fun hx => hclose ?_) (by decide)
    exact hx.trans (List.prefix_append _ _).isInfix
  rawString := Go.Scan.passes_rawString hraw
  ne_nil := by simp [Go.Scan.toList_directiveLine]

/-- The number of characters that the significant tokens of a text have. -/
def weight (text : List Char) : Nat := (spelled (significant (tokenize text))).length

lemma weight_congr {old new : List Char}
    (h : significant (tokenize new) = significant (tokenize old)) : weight new = weight old := by
  rw [weight, h, weight]

/-- A neutral text put in at the start of a line does nothing to the program, or it makes the raw
string there longer. -/
theorem significant_insert (hw : Neutral w) (ha : a = [] ∨ ∃ a', a = a' ++ ['\n'])
    (hy : a = [] → ∀ c ∈ y.head?, c ≠ '\ufeff') (hu : Readable (a ++ y)) :
    (¬ RawStringOver (a ++ y) a.length →
        significant (tokenize (a ++ (w ++ y))) = significant (tokenize (a ++ y))) ∧
      (RawStringOver (a ++ y) a.length → weight (a ++ y) < weight (a ++ (w ++ y))) := by
  have hpos : 0 < w.length := List.length_pos_iff.2 hw.ne_nil
  rcases Go.Scan.spares_or_inside ha hu hw.comment with ⟨h, hover⟩ | ⟨⟨ts, b, u, e, h⟩, hover⟩
  · exact ⟨fun _ => h.fill hw.filler hy (.inl hu), fun hc => absurd hc hover⟩
  · obtain ⟨_, hlen⟩ := h.fill_raw hw.rawString (.inl hu)
    exact ⟨fun hc => absurd hover hc, fun _ => by unfold weight; omega⟩

/-- A neutral text taken out at the start of a line, in front of which the text is still the
original one: `z` is what the original text has behind it. -/
theorem significant_delete {z : List Char} (hw : Neutral w)
    (ha : a = [] ∨ ∃ a', a = a' ++ ['\n']) (hz : Readable (a ++ (w ++ z)))
    (hu : Readable (a ++ (w ++ y))) :
    Readable (a ++ y) ∧
      (¬ RawStringOver (a ++ (w ++ z)) a.length →
        significant (tokenize (a ++ y)) = significant (tokenize (a ++ (w ++ y)))) ∧
      (RawStringOver (a ++ (w ++ z)) a.length → weight (a ++ y) < weight (a ++ (w ++ y))) := by
  have hpos : 0 < w.length := List.length_pos_iff.2 hw.ne_nil
  rcases Go.Scan.spares_or_inside ha hz hw.comment with ⟨h, hover⟩ | ⟨⟨ts, b, u, e, h⟩, hover⟩
  · have hsame := h.fill hw.filler
      (fun hnil => hw.filler.head?_ne hw.ne_nil (by simpa [hnil] using hu)) (.inr hu)
    refine ⟨?_, fun _ => hsame.symm, fun hc => absurd hc hover⟩
    rw [readable_iff] at hu ⊢
    rwa [← hsame]
  · obtain ⟨hkinds, hlen⟩ := h.fill_raw hw.rawString (.inr hu)
    refine ⟨?_, fun hc => absurd hover hc, fun _ => by unfold weight; omega⟩
    rw [readable_iff] at hu ⊢
    rwa [← hkinds]

namespace Edit

/-- The edit starts where the text does, and that is not with a byte order mark, or behind a line
feed. -/
def StartsLine (text : List Char) (e : Edit) : Prop :=
  (e.span.start = 0 ∧ text.head? ≠ some '\ufeff') ∨
    (text.take e.span.start).getLast? = some '\n'

instance (text : List Char) (e : Edit) : Decidable (e.StartsLine text) :=
  inferInstanceAs (Decidable (_ ∨ _))

theorem StartsLine.head? {e : Edit} (h : e.StartsLine text) (hnil : text.take e.span.start = []) :
    ∀ c ∈ (text.drop e.span.start).head?, c ≠ '\ufeff' := by
  rcases h with ⟨h, hbom⟩ | h
  · rw [h, List.drop_zero]
    rintro c hc rfl
    exact hbom hc
  · rw [hnil] at h
    cases h

theorem StartsLine.take {e : Edit} (h : e.StartsLine text) :
    text.take e.span.start = [] ∨ ∃ a, text.take e.span.start = a ++ ['\n'] := by
  rcases h with ⟨h, _⟩ | h
  · exact .inl (by rw [h, List.take_zero])
  · exact .inr (List.getLast?_eq_some_iff.1 h)

/-- The edit takes `w` out of the text and puts nothing in its place. -/
structure Deletes (text : List Char) (e : Edit) (w : List Char) : Prop where
  newText : e.newText = ""
  stop : e.span.stop = e.span.start + w.length
  split : text.drop e.span.start = w ++ text.drop e.span.stop

namespace Deletes

variable {later : List Char} {e : Edit}

/-- What an edit takes out still stands where the text is as it was up to there. -/
lemma parts (h : e.Deletes text w) (htake : later.take e.span.stop = text.take e.span.stop) :
    later = text.take e.span.start ++ (w ++ later.drop e.span.stop) := by
  have hw : text.take e.span.stop = text.take e.span.start ++ w := by
    rw [h.stop, List.take_add, h.split, List.take_left]
  conv => lhs; rw [← List.take_append_drop e.span.stop later, htake, hw]
  rw [List.append_assoc]

/-- The first edit may come last, when those behind it have been applied. -/
lemma splice_cons {es : List Edit} {m : Nat} (h : e.Deletes text w)
    (hfits : Fits m text.length (e :: es)) :
    splice text 0 (e :: es) = text.take e.span.start ++ (splice text 0 es).drop e.span.stop := by
  obtain ⟨-, hle, hes⟩ := hfits
  have hone : Fits 0 e.span.stop [e] := ⟨Nat.zero_le _, hle, Nat.le_refl _⟩
  have htake := take_splice hes text hes.start_le_stop
  have hstart := congrArg (List.take e.span.start) htake
  rw [List.take_take, List.take_take, Nat.min_eq_left hle] at hstart
  rw [← List.singleton_append, ← splice_splice hone hes text hes.start_le_stop, splice_singleton,
    hstart, h.newText]
  simp

end Deletes
end Edit

/-- Taking out neutral texts at the starts of lines does nothing to the program, or it makes raw
strings shorter. -/
theorem significant_deletes (hu : Readable text) {es : List Edit} {m : Nat}
    (hfits : Edit.Fits m text.length es)
    (hes : ∀ e ∈ es, e.StartsLine text ∧ ∃ w, Neutral w ∧ e.Deletes text w) :
    Readable (Edit.splice text 0 es) ∧
      ((∀ e ∈ es, ¬ RawStringOver text e.span.start) →
        significant (tokenize (Edit.splice text 0 es)) = significant (tokenize text)) ∧
      ((∃ e ∈ es, RawStringOver text e.span.start) →
        weight (Edit.splice text 0 es) < weight text) := by
  induction es generalizing m with
  | nil => exact ⟨hu, fun _ => rfl, by simp⟩
  | cons e rest ih =>
    have hwhole := hfits
    obtain ⟨_, hle, hrest⟩ := hfits
    have hstop := hrest.start_le_stop
    obtain ⟨hread, hsame, hless⟩ := ih hrest fun x hx => hes x (by simp [hx])
    obtain ⟨hline, w, hw, hdel⟩ := hes e (by simp)
    -- the edits behind `e` have been applied; in front of them the text is the original one
    have hnow := hdel.splice_cons hwhole
    have hlater := hdel.parts (Edit.take_splice hrest text hstop)
    have horiginal := hdel.parts rfl
    have hlen : (text.take e.span.start).length = e.span.start := by
      rw [List.length_take]
      omega
    obtain ⟨hread', hsame', hless'⟩ := significant_delete hw hline.take (horiginal ▸ hu)
      (hlater ▸ hread)
    rw [← horiginal, hlen, ← hlater, ← hnow] at hsame' hless'
    rw [← hnow] at hread'
    refine ⟨hread', fun h => ?_, fun ⟨x, hx, hover⟩ => ?_⟩
    · rw [hsame' (h e (by simp)), hsame fun x hx => h x (by simp [hx])]
    · by_cases he : RawStringOver text e.span.start
      · refine Nat.lt_of_lt_of_le (hless' he) ?_
        by_cases hr : ∃ z ∈ rest, RawStringOver text z.span.start
        · exact Nat.le_of_lt (hless hr)
        · exact Nat.le_of_eq (weight_congr (hsame (by simpa using hr)))
      · rw [weight_congr (hsame' he)]
        rcases List.mem_cons.1 hx with rfl | hx
        · exact absurd hover he
        · exact hless ⟨x, hx, hover⟩

namespace Document

theorem deletes_emptyLine {d : Document} {line : Nat} {e : Edit}
    (h : d.deleteEmptyLine? line = some e) : ∃ w, Neutral w ∧ e.Deletes d.chars w := by
  obtain ⟨w, hne, hbare, htext, hstop, hsplit⟩ := deleteEmptyLine?_terminator h
  exact ⟨w, neutral_lineBreak (Text.eq_of_bareLine_eq_nil hbare hne), htext, hstop, hsplit⟩

end Document

/-- The strategies that are meant to change the layout of a program only. -/
def Strategy.isLayout : Strategy → Bool
  | suppressLine | suppressNumber | suppressFunction _ | suppressParameter | insertBlankLine
  | removeEmptyLines | endWithPeriod => true
  | _ => false

/-- What the layout strategies do, except for the one that ends comments: put in a directive or an
empty line, or take out empty lines. -/
inductive LayoutEdits (d : Document) (diag : Diagnostic) : List Edit → Prop
  | directive {o line : Nat} {linter : String} : o ≤ d.length →
      linter = diag.linter ∨ linter = diag.rule →
      LayoutEdits d diag [.insert o (directiveLine (d.lineIndent line) linter)]
  | emptyLine {o : Nat} : o ≤ d.length → LayoutEdits d diag [.insert o "\n"]
  | deletes {es : List Edit} : d.Accepts es →
      (∀ e ∈ es, ∃ w, Neutral w ∧ e.Deletes d.chars w) → LayoutEdits d diag es

namespace Site

variable {ν : Type} {s : Site ν} {c : Candidate}

/-- The candidate's edits are those of a layout strategy. -/
def OffersLayout (s : Site ν) (c : Candidate) : Prop :=
  ∃ es, c.edits? = some es ∧ LayoutEdits s.document s.diagnostic es

theorem offers_endWithPeriod (h : c ∈ s.endWithPeriod.candidates) :
    ∃ n, s.locate? .comment = some n ∧
      c.edits? = some [⟨s.tree.span n, String.ofList (withPeriod (s.tree.text n))⟩] := by
  unfold endWithPeriod at h
  split at h
  · rename_i n hn
    obtain rfl := List.mem_singleton.1 h
    exact ⟨n, hn, rfl⟩
  · cases h

/-- Whatever a layout strategy offers, unless it ends comments. -/
theorem offersLayout_resolve {r : Resolution} (hs : (Strategy.ofRule s.diagnostic.rule).isLayout)
    (hperiod : Strategy.ofRule s.diagnostic.rule ≠ .endWithPeriod) (hr : s.resolve = .ok r)
    (hc : c ∈ r.candidates) : s.OffersLayout c := by
  by_cases hsilences : (Strategy.ofRule s.diagnostic.rule).silences
  · obtain ⟨_, line, linter, o, h⟩ := silences_resolve hsilences hr hc
    exact ⟨_, h.edits, .directive (Document.lineStart?_le h.start) h.named⟩
  · unfold resolve at hr
    generalize Strategy.ofRule s.diagnostic.rule = strategy at hs hperiod hr hsilences
    cases strategy with
    | suppressLine | suppressNumber | suppressParameter | suppressFunction =>
      exact absurd rfl hsilences
    | insertBlankLine =>
      obtain rfl := Except.ok.inj hr
      obtain ⟨o, ho, hedits⟩ := offers_insertBlankLine hc
      exact ⟨_, hedits, .emptyLine (Document.lineStart?_le ho)⟩
    | removeEmptyLines =>
      change s.removeEmptyLines = .ok r at hr
      unfold removeEmptyLines at hr
      split at hr
      · rename_i range _
        obtain rfl := Except.ok.inj hr
        have hfits := (fits_removeEmptyLinesIn range).candidates c hc
        unfold removeEmptyLinesIn at hc
        simp only at hc
        split at hc
        · cases hc
        · obtain rfl := List.mem_singleton.1 hc
          refine ⟨_, rfl, .deletes (hfits _ rfl).1 fun e he => ?_⟩
          obtain ⟨l, _, hl⟩ := List.mem_filterMap.1 he
          exact Document.deletes_emptyLine hl
      · cases hr
    | endWithPeriod => exact absurd rfl hperiod
    | _ => cases hs

end Site

/-- The edit's text ends no comment and no raw string that it is put into. -/
def Edit.Plain (e : Edit) : Prop := '\x60' ∉ e.newText.toList ∧ ¬ ['*', '/'] <:+: e.newText.toList

instance (e : Edit) : Decidable e.Plain := inferInstanceAs (Decidable (_ ∧ _))

/-- The leaves of a program's tree, comments left out, are the same just where nothing of it
changes. -/
lemma leafTokens_iff {new : List Char} {covered : Prop} (hok : (Go.parse text).hasErrors = false)
    (hsame : ¬ covered → significant (tokenize new) = significant (tokenize text))
    (hdiff : covered → weight new ≠ weight text) :
    (Go.parse new).leafTokens = (Go.parse text).leafTokens ↔ ¬ covered := by
  constructor
  · intro h hover
    have hspelled := congrArg (List.flatMap Prod.snd) h
    rw [Go.flatMap_leafTokens, Go.flatMap_leafTokens] at hspelled
    exact hdiff hover (congrArg List.length hspelled)
  · intro hover
    exact (Go.leafTokens_of_significant (hsame hover).symm hok).2

theorem leafTokens_insert (hok : (Go.parse text).hasErrors = false) {o : Nat} {t : String}
    (ho : o ≤ text.length) :
    ∃ e, (Document.mk text).apply [.insert o t] = .ok e ∧
      (Neutral t.toList → (Edit.insert o t).StartsLine text →
        ((Go.parse e.chars).leafTokens = (Go.parse text).leafTokens ↔ ¬ RawStringOver text o)) := by
  refine ⟨_, Document.apply_insert ho, fun ht hline => ?_⟩
  have hsplit : text.take o ++ text.drop o = text := List.take_append_drop o text
  have hlen : (text.take o).length = o := List.length_take_of_le ho
  have hread : Readable (text.take o ++ text.drop o) := by
    rw [hsplit]
    exact Go.readable_of_parse hok
  obtain ⟨hsame, hmore⟩ := significant_insert ht hline.take hline.head? hread
  simp only [Edit.insert, Span.point] at hsame hmore
  rw [hsplit, hlen] at hsame hmore
  rw [List.append_assoc]
  exact leafTokens_iff hok hsame fun h => Nat.ne_of_gt (hmore h)

theorem leafTokens_deletes (hok : (Go.parse text).hasErrors = false) {es : List Edit}
    (hacc : (Document.mk text).Accepts es)
    (hes : ∀ e ∈ es, ∃ w, Neutral w ∧ e.Deletes text w) :
    ∃ e, (Document.mk text).apply es = .ok e ∧
      ((∀ x ∈ es, x.StartsLine text) →
        ((Go.parse e.chars).leafTokens = (Go.parse text).leafTokens ↔
          ∀ x ∈ es, ¬ RawStringOver text x.span.start)) := by
  refine ⟨_, Document.apply_of_accepts hacc, fun hline => ?_⟩
  obtain ⟨_, hsame, hless⟩ := significant_deletes (Go.readable_of_parse hok) hacc fun e he =>
    ⟨hline e (Edit.mem_inOrder.1 he), hes e (Edit.mem_inOrder.1 he)⟩
  simp only [Edit.mem_inOrder] at hsame hless
  have hnone : (¬ ∃ x ∈ es, RawStringOver text x.span.start) ↔
      ∀ x ∈ es, ¬ RawStringOver text x.span.start := by simp
  rw [← hnone]
  exact leafTokens_iff hok (fun h => hsame (hnone.1 h)) fun h => Nat.ne_of_lt (hless h)

lemma Go.kind_of_nodeKind {c : Go.Cursor} (h : c.nodeKind = .comment) :
    c.node.kind = .comment := by
  unfold Go.Cursor.nodeKind at h
  split at h
  case h_19 hc => exact hc
  all_goals first | cases h | (split at h <;> cases h)

/-- A comment of the tree is one of the text's tokens. -/
lemma Go.exists_token_of_comment {c : Go.Cursor} (hreach : (Go.parse text).tree.Reachable c)
    (hkind : (Go.parse text).tree.kind c = .comment) :
    ∃ t ∈ tokenize text, t.kind = .comment ∧ t.Stands text ∧
      (Go.parse text).tree.span c = ⟨t.start, t.stop⟩ ∧ (Go.parse text).tree.text c = t.chars := by
  obtain ⟨t, ht, htkind, hspan⟩ :=
    (Go.stands_of_reachable hreach c.node (by simp)).self.comment (Go.kind_of_nodeKind hkind)
  have hstands := (Go.laid_tokenize text).stands t ht
  have htext : (Go.parse text).tree.text c =
      Document.slice ⟨(Go.parse text).chars⟩ c.node.span := rfl
  refine ⟨t, ht, htkind, hstands, hspan, ?_⟩
  rw [htext, Go.chars_parse, hspan]
  exact Go.slice_token hstands

/-- A period at the end of a comment changes nothing of the program. -/
theorem leafTokens_withPeriod (hok : (Go.parse text).hasErrors = false) {c : Go.Cursor}
    (hreach : (Go.parse text).tree.Reachable c) (hkind : (Go.parse text).tree.kind c = .comment) :
    let tree := (Go.parse text).tree
    ∃ e, (Document.mk text).apply
        [⟨tree.span c, String.ofList (withPeriod (tree.text c))⟩] = .ok e ∧
      (Go.parse e.chars).leafTokens = (Go.parse text).leafTokens := by
  intro tree
  obtain ⟨t, ht, htkind, hstands, hspan, htext⟩ := Go.exists_token_of_comment hreach hkind
  rw [hspan, htext]
  have hwithin : Span.Within ⟨t.start, t.stop⟩ text.length :=
    ⟨Nat.le_add_right _ _, hstands.stop_le⟩
  refine ⟨_, Document.apply_singleton hwithin, ?_⟩
  have hsame := Go.significant_withPeriod (Go.readable_of_parse hok) ht htkind
  simp only [String.toList_ofList]
  exact (Go.leafTokens_of_significant hsame.symm hok).2

/-- What layout strategies put in or take out at the start of a line changes the program just where
a raw string goes over it. -/
theorem LayoutEdits.leafTokens {diag : Diagnostic} {es : List Edit}
    (h : LayoutEdits ⟨text⟩ diag es) (hok : (Go.parse text).hasErrors = false)
    (hsource : '\n' ∉ diag.source.toList) (hrule : '\n' ∉ diag.rule.toList) :
    ∃ e, (Document.mk text).apply es = .ok e ∧
      ((∀ x ∈ es, x.StartsLine text ∧ x.Plain) →
        ((Go.parse e.chars).leafTokens = (Go.parse text).leafTokens ↔
          ∀ x ∈ es, ¬ RawStringOver text x.span.start)) := by
  cases h with
  | @directive o line linter ho hl =>
    have hlinter : '\n' ∉ linter.toList := by
      rcases hl with rfl | rfl
      · unfold Diagnostic.linter
        split
        · exact hrule
        · exact hsource
      · exact hrule
    obtain ⟨e, he, hiff⟩ := leafTokens_insert hok ho
    refine ⟨e, he, fun hx => ?_⟩
    obtain ⟨hline, hplain⟩ := hx _ (List.mem_singleton.2 rfl)
    have hneutral := neutral_directiveLine (fun _ => Document.mem_lineIndent) hlinter
      hplain.1 hplain.2
    rw [List.forall_mem_singleton]
    exact hiff hneutral hline
  | emptyLine ho =>
    obtain ⟨e, he, hiff⟩ := leafTokens_insert hok ho
    refine ⟨e, he, fun hx => ?_⟩
    obtain ⟨hline, _⟩ := hx _ (List.mem_singleton.2 rfl)
    rw [List.forall_mem_singleton]
    exact hiff (neutral_lineBreak (.inl rfl)) hline
  | deletes hacc hdel =>
    obtain ⟨e, he, hiff⟩ := leafTokens_deletes hok hacc hdel
    exact ⟨e, he, fun hx => hiff fun x hmem => (hx x hmem).1⟩

/-- Every fix that a layout strategy offers for a program without errors applies. A period at the
end of a comment leaves the program as it is. What is put in or taken out at the start of a line,
behind a line feed and with no end of a comment or raw string in it, leaves the program as it is
just where no raw string goes over the start of that line. -/
theorem leafTokens_layout {diag : Diagnostic} {line : Nat} {r : Resolution} {c : Candidate}
    (hok : (Go.parse text).hasErrors = false) (hs : (Strategy.ofRule diag.rule).isLayout)
    (hsource : '\n' ∉ diag.source.toList) (hrule : '\n' ∉ diag.rule.toList)
    (hr : (Site.mk (Go.parse text).tree ⟨text⟩ diag line).resolve = .ok r)
    (hc : c ∈ r.candidates) :
    ∃ es e, c.edits? = some es ∧ (Document.mk text).apply es = .ok e ∧
      (Strategy.ofRule diag.rule = .endWithPeriod →
        (Go.parse e.chars).leafTokens = (Go.parse text).leafTokens) ∧
      (Strategy.ofRule diag.rule ≠ .endWithPeriod → (∀ x ∈ es, x.StartsLine text ∧ x.Plain) →
        ((Go.parse e.chars).leafTokens = (Go.parse text).leafTokens ↔
          ∀ x ∈ es, ¬ RawStringOver text x.span.start)) := by
  by_cases hperiod : Strategy.ofRule diag.rule = .endWithPeriod
  · have hend : (Site.mk (Go.parse text).tree ⟨text⟩ diag line).endWithPeriod = r := by
      simpa [Site.resolve, hperiod, Strategy.resolveAt] using hr
    obtain ⟨n, hn, hedits⟩ := Site.offers_endWithPeriod (hend.symm ▸ hc)
    obtain ⟨e, he, hsame⟩ := leafTokens_withPeriod hok (Tree.Reachable.locate? hn)
      (Tree.kind_of_locate? hn)
    exact ⟨_, e, hedits, he, fun _ => hsame, fun h => absurd hperiod h⟩
  · obtain ⟨es, hedits, hlayout⟩ := Site.offersLayout_resolve hs hperiod hr hc
    obtain ⟨e, he, hiff⟩ := hlayout.leafTokens hok hsource hrule
    exact ⟨es, e, hedits, he, fun h => absurd h hperiod, fun _ hx => hiff hx⟩

/-- A directive above a variable with a raw string that ends on its line. -/
theorem leafTokens_directive_above_var :
    let text := "package a\n\nvar s = \x60x\x60\n".toList
    let directive := Edit.insert 11 (directiveLine [] "gosec")
    ∃ e, (Document.mk text).apply [directive] = .ok e ∧
      (Go.parse e.chars).leafTokens = (Go.parse text).leafTokens := by
  intro text directive
  let diag : Diagnostic := ⟨"gosec", "", "a.go", 3, 0, none, "gosec"⟩
  let c : Candidate := ⟨"Suppress 'gosec' for this line", .edits [directive]⟩
  obtain ⟨es, e, hes, he, _, hiff⟩ := @leafTokens_layout text diag 2 (.single c none) c
    (by decide +kernel) (by decide) (by decide) (by decide) rfl (List.mem_singleton.2 rfl)
  obtain rfl : [directive] = es := Option.some.inj hes
  refine ⟨e, he, (hiff (by decide) ?_).2 ?_⟩
  · rw [List.forall_mem_singleton]
    decide +kernel
  · rw [List.forall_mem_singleton]
    decide +kernel

/-- A directive above a line that is in the middle of a raw string becomes a part of the string. -/
theorem leafTokens_directive_in_rawString :
    let text := "package a\n\nvar s = \x60\nx\x60\n".toList
    let diag : Diagnostic := ⟨"lll", "", "a.go", 4, 0, none, "lll"⟩
    (Go.parse text).hasErrors = false ∧ (Strategy.ofRule diag.rule).isLayout ∧
      ∃ c es e, (Site.mk (Go.parse text).tree ⟨text⟩ diag 3).resolve = .ok (.single c none) ∧
        c.edits? = some es ∧ (Document.mk text).apply es = .ok e ∧
        (Go.parse e.chars).leafTokens ≠ (Go.parse text).leafTokens := by
  intro text diag
  have hacc : (Document.mk text).Accepts [.insert 21 (directiveLine [] "lll")] := by
    rw [Document.accepts_singleton]
    decide +kernel
  refine ⟨by decide +kernel, by decide, _, _, _, rfl, rfl, Document.apply_of_accepts hacc, ?_⟩
  rw [Edit.inOrder_singleton]
  decide +kernel

end Mend
