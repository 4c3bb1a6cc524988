import Mend.Fix.Suppression
import Mend.Proofs.Go.Places

/-! The texts that layout fixes put in and take out: directive lines and ends of lines. -/
namespace Mend.Go.Scan

lemma filler_nil : Filler [] := fun y p => ⟨[], .refl _, by simp⟩

lemma Filler.append {v w : List Char} (hv : Filler v) (hw : Filler w) : Filler (v ++ w) := by
  intro y p
  obtain ⟨ts, hts, hc⟩ := hv (w ++ y) p
  obtain ⟨us, hus, hc'⟩ := hw y (p + v.length)
  refine ⟨ts ++ us, ?_, fun t ht => ?_⟩
  · rw [List.append_assoc, List.length_append, ← Nat.add_assoc]
    exact hts.trans hus
  · rcases List.mem_append.1 ht with ht | ht
    · exact hc t ht
    · exact hc' t ht

lemma filler_of_blank {cs : List Char} (h : ∀ c ∈ cs, isBlank c = true) : Filler cs := by
  induction cs with
  | nil => exact filler_nil
  | cons c cs ih =>
    have hc : Filler [c] := fun y p =>
      ⟨[], (Step.skip y (.inl (h c (by simp))) fun _ => rfl).path, by simp⟩
    exact hc.append (ih fun d hd => h d (by simp [hd]))

/-- A line comment with its line feed. -/
lemma filler_lineComment {cs : List Char} (h : '\n' ∉ cs) :
    Filler (['/', '/'] ++ cs ++ ['\n']) := by
  intro y p
  have hlen : (token (['/', '/'] ++ cs ++ '\n' :: y)).2 = (['/', '/'] ++ cs).length := by
    rw [List.append_assoc, token_lineComment, ← List.append_assoc, takeWhile_append_stop (by simp)]
    have hall : ∀ c ∈ ['/', '/'] ++ cs, decide (c ≠ '\n') = true := by
      intro c hc
      rcases List.mem_append.1 hc with hc | hc
      · have hslash : c = '/' := by simpa using hc
        simp [hslash]
      · simpa using fun hn : c = '\n' => h (hn ▸ hc)
    rw [← List.append_nil (['/', '/'] ++ cs), List.takeWhile_append_of_pos hall]
    simp
  have hcomment : Step ⟨['/', '/'] ++ cs ++ '\n' :: y, p, false⟩ [⟨.comment, p, ['/', '/'] ++ cs⟩]
      ⟨'\n' :: y, p + (['/', '/'] ++ cs).length, false⟩ := by
    refine .token (by simp) ?_ ?_ rfl
    · simp [Skipped, isBlank]
    · rw [hlen]
      simp
  have hline : Step ⟨'\n' :: y, p + (['/', '/'] ++ cs).length, false⟩ []
      ⟨y, p + (['/', '/'] ++ cs).length + 1, false⟩ :=
    .skip y (.inl (by decide)) fun _ => rfl
  have hpath := hcomment.path.trans hline.path
  refine ⟨[⟨.comment, p, ['/', '/'] ++ cs⟩] ++ [], ?_, fun t ht => ?_⟩
  · rw [List.append_assoc _ ['\n'] y, List.length_append, ← Nat.add_assoc]
    exact hpath
  · have : t = ⟨.comment, p, ['/', '/'] ++ cs⟩ := by simpa using ht
    rw [this]

lemma toList_directiveLine (indent : List Char) (linter : String) :
    (directiveLine indent linter).toList =
      indent ++ (['/', '/'] ++ ("nolint:".toList ++ linter.toList) ++ ['\n']) := by
  simp [directiveLine, nolintDirective]

theorem filler_directiveLine {indent : List Char} {linter : String}
    (hindent : ∀ c ∈ indent, c = ' ' ∨ c = '\t') (hlinter : '\n' ∉ linter.toList) :
    Filler (directiveLine indent linter).toList := by
  rw [toList_directiveLine]
  have hblank : ∀ c ∈ indent, isBlank c = true := by
    intro c hc
    rcases hindent c hc with rfl | rfl <;> decide
  refine (filler_of_blank hblank).append (filler_lineComment ?_)
  simpa using hlinter

lemma blockComment?_eq_none {cs : List Char} (h : ¬ ['*', '/'] <:+: cs) :
    blockComment? cs = none := by
  fun_induction blockComment? cs with
  | case1 => rfl
  | case2 rest => exact absurd ⟨[], rest, rfl⟩ h
  | case3 c rest _ ih =>
    rw [ih fun hrest => h (hrest.trans (List.suffix_cons c rest).isInfix)]
    rfl

lemma raw?_eq_none {cs : List Char} (h : '\x60' ∉ cs) : raw? cs = none := by
  induction cs with
  | nil => rfl
  | cons c cs ih =>
    obtain ⟨hc, hcs⟩ : '\x60' ≠ c ∧ '\x60' ∉ cs := by simpa using h
    rw [raw?, if_neg hc.symm, ih hcs]
    rfl

/-- A text that ends outside of a closing mark and has none is passed over by a comment. -/
theorem passes_comment {x : List Char} {c : Char} (hx : ¬ ['*', '/'] <:+: x)
    (hc : c ≠ '*' ∧ c ≠ '/') : Long.comment.Passes (x ++ [c]) := by
  intro y
  have h := blockComment?_append_cons hc x y
  rw [blockComment?_eq_none hx, Option.none_or] at h
  simpa [Long.close?] using h

theorem passes_rawString {w : List Char} (h : '\x60' ∉ w) : Long.rawString.Passes w := by
  intro y
  have := raw?_append w y
  rwa [raw?_eq_none h, Option.none_or] at this

lemma operators_head : ∀ op ∈ operators, ∃ c ∈ op.head?, c ≠ '\ufeff' := by
  have h : operators.all (fun op => op.head?.any (· ≠ '\ufeff')) = true := by decide +kernel
  intro op hop
  simpa [Option.any_eq_true] using List.all_eq_true.1 h op hop

lemma token_byteOrderMark (rest : List Char) : token ('\ufeff' :: rest) = (.unknown, 1) := by
  have hmarks : ∀ m ∈ marks, ¬ m <+: '\ufeff' :: rest := by
    simp [marks]
  have hoperators : operators.find? (·.isPrefixOf ('\ufeff' :: rest)) = none := by
    rw [List.find?_eq_none]
    intro op hop hprefix
    obtain ⟨c, hc, hne⟩ := operators_head op hop
    cases op with
    | nil => cases hc
    | cons d op =>
      obtain rfl : d = c := by simpa using hc
      exact hne (List.cons_prefix_cons.1 (List.isPrefixOf_iff_prefix.1 hprefix)).1
  have hstart : Identifier.isStart '\ufeff' = false := by decide +kernel
  have hnumber : startsNumber ('\ufeff' :: rest) = false := by simp [startsNumber]
  rw [token_eq_plainToken hmarks, plainToken, hnumber]
  simp [hstart, hoperators]

/-- A byte order mark behind a filler is no token. -/
theorem Filler.head?_ne {w y : List Char} (hw : Filler w) (hne : w ≠ []) (hu : Readable (w ++ y)) :
    ∀ c ∈ y.head?, c ≠ '\ufeff' := by
  rintro c hc rfl
  obtain ⟨ts, hts, _⟩ := hw y 0
  obtain ⟨rest, rfl⟩ : ∃ rest, y = '\ufeff' :: rest := by
    cases y with
    | nil => cases hc
    | cons d y =>
      obtain rfl : d = '\ufeff' := by simpa using hc
      exact ⟨y, rfl⟩
  have hpos : 0 < w.length := List.length_pos_iff.2 hne
  have hskip : ∀ c ∈ ['\ufeff'].head?, ¬ Skipped c (0 + w.length) := by
    simp [Skipped, isBlank, Nat.ne_of_gt hpos]
  have hstep : Step ⟨['\ufeff'] ++ rest, 0 + w.length, false⟩
      [⟨(token (['\ufeff'] ++ rest)).1, 0 + w.length, ['\ufeff']⟩] _ :=
    .token (by simp) hskip (by simp [token_byteOrderMark]) rfl
  refine hu ⟨(token (['\ufeff'] ++ rest)).1, 0 + w.length, ['\ufeff']⟩ ?_ ?_
  · have hlex := hstep.lex
    simp only [List.singleton_append] at hlex
    rw [hts.tokenize_eq, hlex]
    simp
  · simp [token_byteOrderMark]

end Mend.Go.Scan
