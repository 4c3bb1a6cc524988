import Mend.Proofs.Layout
import Mend.Proofs.LineEnds

/-! Where a period at the end of a comment goes. It stands behind the last character of the
comment's body that is not blank, and the comment stays a complete one of its form. In the document
one line is longer by the period, unless it comes between a CR and its line feed. -/
namespace Mend

open Go.Scan (blockComment? blockComment?_take)

namespace Text

lemma mem_getLast?_trimEnd {cs : List Char} {c : Char} (h : (trimEnd cs).getLast? = some c) :
    isBlank c = false := by
  rw [trimEnd, List.getLast?_reverse] at h
  have hnot := List.head?_dropWhile_not isBlank cs.reverse
  rw [h] at hnot
  simpa using hnot

end Text

/-- The forms of a complete comment: its opening mark, its body and its closing mark. The body of a
line comment has no line feed, and a block comment has no closing mark but that at its end. -/
inductive CommentForm : List Char → List Char → List Char → Prop
  | line {body : List Char} : '\n' ∉ body → CommentForm ['/', '/'] body []
  | block {body : List Char} :
    (∀ front back, body ++ ['*', '/'] = front ++ ['*', '/'] ++ back → back = []) →
    CommentForm ['/', '*'] body ['*', '/']

namespace Go.Scan

lemma blockComment?_cons (c : Char) (cs : List Char) :
    (∃ r, c = '*' ∧ cs = '/' :: r ∧ blockComment? (c :: cs) = some 2) ∨
      blockComment? (c :: cs) = (blockComment? cs).map (· + 1) := by
  by_cases h : ∃ r, c = '*' ∧ cs = '/' :: r
  · obtain ⟨r, rfl, rfl⟩ := h
    exact .inl ⟨r, rfl, rfl, rfl⟩
  · right
    rw [blockComment?]
    exact fun r hc hcs => h ⟨r, hc, hcs⟩

/-- A comment ends with the first closing mark or in front of it. -/
lemma blockComment?_le (front back : List Char) :
    ∃ n ≤ front.length + 2, blockComment? (front ++ ['*', '/'] ++ back) = some n := by
  induction front with
  | nil => exact ⟨2, Nat.le_refl _, rfl⟩
  | cons c front ih =>
    obtain ⟨n, hn, hclose⟩ := ih
    rw [List.cons_append, List.cons_append, List.length_cons]
    rcases blockComment?_cons c (front ++ ['*', '/'] ++ back) with ⟨-, -, -, h⟩ | h
    · exact ⟨2, by omega, h⟩
    · exact ⟨n + 1, by omega, by rw [h, hclose]; rfl⟩

/-- A comment ends at the end of a text if there is the only closing mark. -/
theorem blockComment?_closing_iff {body : List Char} :
    blockComment? (body ++ ['*', '/']) = some (body.length + 2) ↔
      ∀ front back, body ++ ['*', '/'] = front ++ ['*', '/'] ++ back → back = [] := by
  constructor
  · intro h front back heq
    obtain ⟨n, hn, hclose⟩ := blockComment?_le front back
    rw [heq, hclose, Option.some.injEq] at h
    have hlen := congrArg List.length heq
    simp only [List.length_append, List.length_cons, List.length_nil] at hlen
    exact List.length_eq_zero_iff.1 (by omega)
  · intro h
    induction body with
    | nil => rfl
    | cons c body ih =>
      have hrest := ih fun front back heq => h (c :: front) back (by simp [heq])
      rw [List.cons_append, List.length_cons]
      rcases blockComment?_cons c (body ++ ['*', '/']) with ⟨r, rfl, hr, -⟩ | hnext
      · -- a closing mark at the front would be the only one, and so all of the text
        obtain rfl := h [] r (by simp [hr])
        have hlen := congrArg List.length hr
        simp at hlen
      · rw [hnext, hrest]
        rfl

/-- With a period behind what is not blank the closing mark is still the only one. -/
lemma blockComment?_closing_period {body : List Char}
    (h : blockComment? (body ++ ['*', '/']) = some (body.length + 2)) :
    blockComment? (Text.trimEnd body ++ '.' :: Text.blankEnd body ++ ['*', '/']) =
      some ((Text.trimEnd body ++ '.' :: Text.blankEnd body).length + 2) := by
  have hclosed : blockComment? (body ++ ['*', '/'] ++ []) = some (body.length + 2) := by
    rw [List.append_nil, h]
  have hlen := congrArg List.length (Text.trimEnd_append_blankEnd body)
  rw [List.length_append] at hlen
  have hlonger : (Text.trimEnd body ++ '.' :: Text.blankEnd body).length + 2 =
      body.length + 3 := by
    rw [List.length_append, List.length_cons]
    omega
  rw [hlonger, ← blockComment?_period hclosed]
  simp

end Go.Scan

lemma exists_withPeriod_eq (comment : List Char) :
    ∃ front back, comment = front ++ back ∧ withPeriod comment = front ++ '.' :: back := by
  unfold withPeriod
  split
  · rename_i hmarks
    obtain ⟨-, hclosing⟩ := Bool.and_eq_true_iff.1 hmarks
    obtain ⟨body, rfl⟩ := List.isSuffixOf_iff_suffix.1 hclosing
    have htake : (body ++ ['*', '/']).take ((body ++ ['*', '/']).length - 2) = body := by
      rw [List.length_append]
      exact List.take_left
    refine ⟨Text.trimEnd body, Text.blankEnd body ++ ['*', '/'], ?_, ?_⟩
    · rw [← List.append_assoc, Text.trimEnd_append_blankEnd]
    · simp only [htake, List.append_assoc, List.cons_append]
  · exact ⟨comment, [], by simp, rfl⟩

/-- Where the period of a complete comment goes: in front of the blanks at the end of the body of a
block comment, and to the very end of a line comment. -/
lemma CommentForm.withPeriod_eq {opening body closing : List Char}
    (h : CommentForm opening body closing) :
    ∃ text blanks, body = text ++ blanks ∧ (∀ c ∈ blanks, Text.isBlank c = true) ∧
      withPeriod (opening ++ body ++ closing) = opening ++ (text ++ '.' :: blanks) ++ closing ∧
      CommentForm opening (text ++ '.' :: blanks) closing := by
  cases h with
  | line hbody =>
    refine ⟨body, [], by simp, by simp, ?_, .line ?_⟩
    · rw [List.append_nil, Go.Scan.withPeriod_lineComment, List.append_nil]
    · simpa using hbody
  | block hbody =>
    refine ⟨Text.trimEnd body, Text.blankEnd body, (Text.trimEnd_append_blankEnd body).symm,
      fun c => Text.isBlank_of_mem_blankEnd, ?_, .block ?_⟩
    · rw [List.append_assoc, Go.Scan.withPeriod_blockComment]
      simp
    · rw [← Go.Scan.blockComment?_closing_iff] at hbody ⊢
      exact Go.Scan.blockComment?_closing_period hbody

/-- A period is put in at one place. In a complete comment this is behind the last character of the
body that is not blank, and what comes of it is a complete comment of the same form. -/
theorem withPeriod_completes (comment : List Char) :
    (∃ front back, comment = front ++ back ∧ withPeriod comment = front ++ '.' :: back) ∧
    ∀ opening body closing, CommentForm opening body closing →
      comment = opening ++ body ++ closing →
      ∃ text blanks, body = text ++ blanks ∧ (∀ c ∈ blanks, Text.isBlank c = true) ∧
        withPeriod comment = opening ++ (text ++ '.' :: blanks) ++ closing ∧
        CommentForm opening (text ++ '.' :: blanks) closing := by
  refine ⟨exists_withPeriod_eq comment, fun opening body closing hform hcomment => ?_⟩
  rw [hcomment]
  exact hform.withPeriod_eq

/-- The lines are the same ones, with the same terminators, but for the text of one, which has one
more period. -/
def AddsPeriod (old new : List (List Char)) : Prop :=
  ∃ l front back ending, old[l]? = some (front ++ back ++ ending) ∧
    Text.bareLine (front ++ back ++ ending) = front ++ back ∧
    new = old.set l (front ++ '.' :: back ++ ending) ∧
    Text.bareLine (front ++ '.' :: back ++ ending) = front ++ '.' :: back

lemma AddsPeriod.length_eq {old new : List (List Char)} (h : AddsPeriod old new) :
    new.length = old.length := by
  obtain ⟨_, _, _, _, -, -, rfl, -⟩ := h
  exact List.length_set

/-- A period goes into one line, unless it comes between a CR and a line feed: then there is one
line more, as the CR ends a line on its own. -/
theorem addsPeriod_iff (u v : List Char) :
    AddsPeriod (Text.lines (u ++ v)) (Text.lines (u ++ '.' :: v)) ↔
      ¬ (u.getLast? = some '\r' ∧ v.head? = some '\n') := by
  constructor
  · rintro h ⟨hcr, hfeed⟩
    obtain ⟨u, rfl⟩ := List.getLast?_eq_some_iff.1 hcr
    obtain ⟨v, rfl⟩ := List.head?_eq_some_iff.1 hfeed
    obtain ⟨ls, b, -, hb, happ⟩ := Text.exists_lines_append u
    have hold : Text.lines (u ++ ['\r'] ++ '\n' :: v) =
        ls ++ (b ++ ['\r', '\n']) :: Text.lines v := by
      rw [List.append_assoc, happ _ (by simp)]
      exact congrArg (ls ++ ·) (Text.lines_append_of_unbroken hb rfl)
    have hnew : Text.lines (u ++ ['\r'] ++ '.' :: '\n' :: v) =
        ls ++ (b ++ ['\r']) :: ['.', '\n'] :: Text.lines v := by
      rw [List.append_assoc, happ _ (by simp)]
      exact congrArg (ls ++ ·) (Text.lines_append_of_unbroken hb rfl)
    have hlen := h.length_eq
    rw [hold, hnew] at hlen
    simp at hlen
  · intro hcr
    obtain ⟨ls, b, -, hb, happ⟩ := Text.exists_lines_append u
    obtain ⟨first, rest, hv⟩ := List.exists_cons_of_length_pos (Text.length_lines_pos v)
    obtain ⟨ending, hending⟩ := Text.bareLine_prefix first
    have hold : Text.lines (u ++ v) = ls ++ (b ++ first) :: rest := by
      rw [happ v hcr, Text.lines_append_of_unbroken hb hv]
    have hnew : Text.lines (u ++ '.' :: v) = ls ++ (b ++ '.' :: first) :: rest := by
      rw [happ _ (by simp), Text.lines_append_of_unbroken hb]
      exact Text.lines_append_of_unbroken (a := ['.']) (by simp; decide) hv
    refine ⟨ls.length, b, Text.bareLine first, ending, ?_, ?_, ?_, ?_⟩
    · rw [hold, List.append_assoc, hending]
      simp
    · rw [List.append_assoc, hending, Text.bareLine_append hb]
    · rw [hold, hnew, List.append_assoc, List.cons_append, hending]
      simp
    · have hperiod := Text.bareLine_append (a := ['.']) (by simp; decide) first
      rw [List.append_assoc, List.cons_append, hending, Text.bareLine_append hb]
      exact congrArg (b ++ ·) hperiod

namespace Document

/-- The offset is between a CR and the line feed that ends the line with it. -/
def InsideCRLF (d : Document) (o : Nat) : Prop :=
  d.char? (o - 1) = some '\r' ∧ d.char? o = some '\n'

instance (d : Document) (o : Nat) : Decidable (d.InsideCRLF o) :=
  inferInstanceAs (Decidable (_ ∧ _))

lemma insideCRLF_append {u v : List Char} (hu : u ≠ []) :
    (Document.mk (u ++ v)).InsideCRLF u.length ↔
      u.getLast? = some '\r' ∧ v.head? = some '\n' := by
  have hpos := List.length_pos_iff.2 hu
  simp only [InsideCRLF, char?]
  rw [List.getElem?_append_left (by omega), List.getElem?_append_right (Nat.le_refl _),
    Nat.sub_self, ← List.getLast?_eq_getElem?, ← List.head?_eq_getElem?]

end Document

/-- A token in its text: what is in front of it, and what is behind. -/
lemma Go.Token.Stands.around {text : List Char} {t : Go.Token} (h : t.Stands text) :
    text = text.take t.start ++ t.chars ++ text.drop t.stop ∧
      (text.take t.start ++ t.chars).length = t.stop := by
  obtain ⟨rest, hrest⟩ := h.isPrefix
  have hdrop : text.drop t.stop = rest := by
    rw [Go.Token.stop, ← List.drop_drop, ← hrest, List.drop_left]
  constructor
  · rw [hdrop, List.append_assoc, hrest, List.take_append_drop]
  · rw [List.length_append, List.length_take_of_le h.start_le]
    rfl

open Go (tokenize) in
/-- A comment among the tokens of a text is a complete one. -/
lemma commentForm_of_mem {text : List Char} {t : Go.Token} (hmem : t ∈ tokenize text)
    (ht : t.kind = .comment) :
    ∃ opening body closing, CommentForm opening body closing ∧
      t.chars = opening ++ body ++ closing := by
  obtain ⟨ts, f, g, -, hs⟩ :=
    Go.Scan.exists_step_of_mem (f := ⟨text, 0, false⟩) hmem (by rw [ht]; decide)
  rcases (Go.Scan.comment_cases hs ht).2.2 with ⟨r, hr, hline, -⟩ | ⟨inner, hinner, hclosed⟩
  · exact ⟨_, r, [], .line hline, by rw [hr, List.append_nil]⟩
  · refine ⟨_, inner, _, .block ?_, by rw [hinner, List.append_assoc]⟩
    obtain ⟨-, -, happ⟩ := blockComment?_take hclosed
    have htake : (inner ++ ['*', '/'] ++ g.rest).take (inner.length + 2) = inner ++ ['*', '/'] :=
      List.take_left' (by simp)
    have hself := happ []
    rw [htake, List.append_nil] at hself
    exact Go.Scan.blockComment?_closing_iff.1 hself

/-- A comment with a period, put in its place in a text, adds the period to one line, unless the
comment ends between a CR and its line feed. -/
lemma addsPeriod_comment {a z opening body closing comment : List Char}
    (hform : CommentForm opening body closing) (hcomment : comment = opening ++ body ++ closing) :
    AddsPeriod (Text.lines (a ++ comment ++ z)) (Text.lines (a ++ withPeriod comment ++ z)) ↔
      ¬ (Document.mk (a ++ comment ++ z)).InsideCRLF (a ++ comment).length := by
  have hne : a ++ comment ≠ [] := by
    rw [hcomment]
    cases hform <;> simp
  rw [Document.insideCRLF_append hne]
  cases hform with
  | line hbody =>
    rw [List.append_nil] at hcomment
    rw [hcomment, Go.Scan.withPeriod_lineComment, ← addsPeriod_iff]
    simp
  | block hbody =>
    have hend : (a ++ comment).getLast? = some '/' := by
      rw [hcomment, List.getLast?_append, List.getLast?_append]
      rfl
    rw [List.append_assoc] at hcomment
    refine iff_of_true ?_ (by rw [hend]; simp)
    -- the period comes behind the opening mark or behind what is not blank
    have hlast : (a ++ ['/', '*'] ++ Text.trimEnd body).getLast? ≠ some '\r' := by
      rw [List.getLast?_append]
      cases htrim : (Text.trimEnd body).getLast? with
      | none => simp
      | some c =>
        rintro hc
        obtain rfl := Option.some.inj hc
        exact absurd (Text.mem_getLast?_trimEnd htrim) (by decide)
    have hadds := (addsPeriod_iff (a ++ ['/', '*'] ++ Text.trimEnd body)
      (Text.blankEnd body ++ ['*', '/'] ++ z)).2 fun h => hlast h.1
    have hold : a ++ comment ++ z =
        a ++ ['/', '*'] ++ Text.trimEnd body ++ (Text.blankEnd body ++ ['*', '/'] ++ z) := by
      rw [hcomment]
      conv => lhs; rw [← Text.trimEnd_append_blankEnd body]
      simp only [List.append_assoc]
    rw [hold, hcomment, Go.Scan.withPeriod_blockComment]
    simpa using hadds

namespace Site

variable {text : List Char} {diag : Diagnostic} {line : Nat} {r : Resolution} {c : Candidate}

/-- To end a comment with a period changes one line of a program, by the period and nothing else,
unless the comment ends between a CR and the line feed of its line. A comment up to the end of a
line does that just where CR and line feed end the line; the line is then cut in two. -/
theorem period_in_line (hrule : diag.rule = "godot")
    (hr : (Site.mk (Go.parse text).tree ⟨text⟩ diag line).resolve = .ok r)
    (hc : c ∈ r.candidates) :
    let s : Site Go.Cursor := ⟨(Go.parse text).tree, ⟨text⟩, diag, line⟩
    ∃ n es e, s.locate? .comment = some n ∧ c.edits? = some es ∧ s.document.apply es = .ok e ∧
      (AddsPeriod s.document.lines e.lines ↔ ¬ s.document.InsideCRLF (s.tree.span n).stop) := by
  intro s
  have hend : s.endWithPeriod = r := by
    have hstrategy : Strategy.ofRule diag.rule = .endWithPeriod := by rw [hrule]; rfl
    simpa [Site.resolve, hstrategy, Strategy.resolveAt] using hr
  obtain ⟨n, hn, hedits⟩ := Site.offers_endWithPeriod (hend.symm ▸ hc)
  obtain ⟨t, ht, htkind, hstands, hspan, htext⟩ :=
    Go.exists_token_of_comment (Tree.Reachable.locate? hn) (Tree.kind_of_locate? hn)
  obtain ⟨opening, body, closing, hform, hchars⟩ := commentForm_of_mem ht htkind
  have hwithin : Span.Within ⟨t.start, t.stop⟩ text.length :=
    ⟨Nat.le_add_right _ _, hstands.stop_le⟩
  rw [hspan, htext] at hedits
  refine ⟨n, _, _, hn, hedits, Document.apply_singleton hwithin, ?_⟩
  obtain ⟨hsplit, hstop⟩ := hstands.around
  have hadds := addsPeriod_comment (a := text.take t.start) (z := text.drop t.stop) hform hchars
  rw [← hsplit, hstop] at hadds
  rw [hspan]
  simp only [String.toList_ofList]
  exact hadds

/-- A comment between marks, in a text whose lines end with CR and line feed. -/
theorem period_in_line_block :
    let text := "package a\r\n\r\n/* a\r\n*/\r\nvar x = 1\r\n".toList
    ∃ e, (Document.mk text).apply [⟨⟨13, 21⟩, "/* a.\r\n*/"⟩] = .ok e ∧
      AddsPeriod (Document.mk text).lines e.lines := by
  intro text
  let diag : Diagnostic := ⟨"godot", "", "a.go", 3, 0, none, "godot"⟩
  let s : Site Go.Cursor := ⟨(Go.parse text).tree, ⟨text⟩, diag, 2⟩
  let c : Candidate := ⟨"Add '.' to the end", .edits [⟨⟨13, 21⟩, "/* a.\r\n*/"⟩]⟩
  have hperiod : s.endWithPeriod = .single c (some ⟨13, 21⟩) := by decide +kernel
  have hoffer : s.resolve = .ok (.single c (some ⟨13, 21⟩)) := congrArg Except.ok hperiod
  obtain ⟨n, es, e, hn, hes, he, hiff⟩ :=
    period_in_line (c := c) rfl hoffer (List.mem_singleton.2 rfl)
  obtain rfl : [⟨⟨13, 21⟩, "/* a.\r\n*/"⟩] = es := Option.some.inj hes
  refine ⟨e, he, hiff.2 ?_⟩
  have hspan : (s.locate? .comment).map s.tree.span = some ⟨13, 21⟩ := by decide +kernel
  rw [hn, Option.map_some, Option.some.injEq] at hspan
  rw [hspan]
  decide +kernel

/-- A comment up to the end of its line, in such a text: its line becomes two. -/
theorem period_between_cr_and_feed :
    let text := "package a\r\n\r\n// a\r\nvar x = 1\r\n".toList
    let diag : Diagnostic := ⟨"godot", "", "a.go", 3, 0, none, "godot"⟩
    let s : Site Go.Cursor := ⟨(Go.parse text).tree, ⟨text⟩, diag, 2⟩
    (Go.parse text).hasErrors = false ∧ ∃ c es e,
      s.resolve = .ok (.single c (some ⟨13, 18⟩)) ∧ c.edits? = some es ∧
      s.document.apply es = .ok e ∧ ¬ AddsPeriod s.document.lines e.lines := by
  intro text diag s
  let c : Candidate := ⟨"Add '.' to the end", .edits [⟨⟨13, 18⟩, "// a\r."⟩]⟩
  have hperiod : s.endWithPeriod = .single c (some ⟨13, 18⟩) := by decide +kernel
  have hoffer : s.resolve = .ok (.single c (some ⟨13, 18⟩)) := congrArg Except.ok hperiod
  have hacc : s.document.Accepts [⟨⟨13, 18⟩, "// a\r."⟩] := by
    rw [Document.accepts_singleton]
    decide +kernel
  refine ⟨by decide +kernel, c, _, _, hoffer, rfl, Document.apply_of_accepts hacc, fun h => ?_⟩
  have hlen := h.length_eq
  rw [Edit.inOrder_singleton] at hlen
  revert hlen
  decide +kernel

end Site
end Mend
