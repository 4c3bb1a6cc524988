import Mend.Fix.Layout
import Mend.Proofs.Go.Places

/-! A period at the end of a comment: the comment stays one comment, and nothing else changes. -/
namespace Mend

namespace Text

/-- What ends in a character that is not blank is not trimmed. -/
lemma trimEnd_append {u v : List Char} (h : ∀ c ∈ u.getLast?, isBlank c = false) :
    trimEnd (u ++ v) = u ++ trimEnd v := by
  have hu : u.reverse.dropWhile isBlank = u.reverse := by
    cases hr : u.reverse with
    | nil => rfl
    | cons c rest =>
      have hc := h c (by rw [← List.head?_reverse, hr]; rfl)
      simp [hc]
  simp only [trimEnd, List.reverse_append, List.dropWhile_append]
  split
  · rename_i hempty
    rw [hu, List.isEmpty_iff.1 hempty]
    simp
  · simp

lemma blankEnd_append {u v : List Char} (h : ∀ c ∈ u.getLast?, isBlank c = false) :
    blankEnd (u ++ v) = blankEnd v := by
  have hsplit := trimEnd_append_blankEnd (u ++ v)
  rw [trimEnd_append h, List.append_assoc, List.append_cancel_left_eq] at hsplit
  exact List.append_cancel_left (hsplit.trans (trimEnd_append_blankEnd v).symm)

lemma isBlank_of_mem_blankEnd {cs : List Char} {c : Char} (h : c ∈ blankEnd cs) :
    isBlank c = true :=
  List.all_eq_true.1 List.all_takeWhile c (List.mem_reverse.1 h)

end Text

namespace Go
namespace Scan

/-- A comment ends with its closing mark. -/
lemma blockComment?_eq_some {cs : List Char} {n : Nat} (h : blockComment? cs = some n) :
    ∃ inner, cs.take n = inner ++ ['*', '/'] ∧ n = inner.length + 2 := by
  fun_induction blockComment? cs generalizing n with
  | case1 => cases h
  | case2 rest =>
    obtain rfl := Option.some.inj h
    exact ⟨[], by simp, rfl⟩
  | case3 c rest _ ih =>
    obtain ⟨k, hk, rfl⟩ := Option.map_eq_some_iff.1 h
    obtain ⟨inner, htake, rfl⟩ := ih hk
    exact ⟨c :: inner, by rw [List.take_succ_cons, htake]; rfl, rfl⟩

lemma blockComment?_append_of_not_mem {u : List Char} (h : '*' ∉ u) (v : List Char) :
    blockComment? (u ++ v) = (blockComment? v).map (· + u.length) := by
  induction u with
  | nil => simp
  | cons c u ih =>
    obtain ⟨hc, hu⟩ : '*' ≠ c ∧ '*' ∉ u := by simpa using h
    rw [List.cons_append, blockComment?, ih hu]
    · simp [Function.comp_def, Nat.add_assoc]
    · exact fun _ hstar _ => hc hstar.symm

/-- A period in front of the blanks that end a block comment does not close it early. -/
lemma blockComment?_period {inner rest : List Char}
    (h : blockComment? (inner ++ ['*', '/'] ++ rest) = some (inner.length + 2)) :
    blockComment? (Text.trimEnd inner ++ '.' :: (Text.blankEnd inner ++ ['*', '/']) ++ rest) =
      some (inner.length + 3) := by
  have hinner := Text.trimEnd_append_blankEnd inner
  have hlen := congrArg List.length hinner
  rw [List.length_append] at hlen
  have hopen : blockComment? (Text.trimEnd inner) = none := by
    cases hk : blockComment? (Text.trimEnd inner) with
    | none => rfl
    | some k =>
      obtain ⟨_, hle, hv⟩ := blockComment?_take hk
      have hclosed : blockComment? (inner ++ ['*', '/'] ++ rest) = some k := by
        rw [← hinner, List.append_assoc, List.append_assoc]
        have := append_of_take (u := Text.trimEnd inner) (v := []) (by simpa using hv) hle
          (Text.blankEnd inner ++ (['*', '/'] ++ rest))
        exact this
      rw [h] at hclosed
      have := Option.some.inj hclosed
      omega
  have hblank : '*' ∉ Text.blankEnd inner := fun hmem =>
    absurd (Text.isBlank_of_mem_blankEnd hmem) (by decide)
  rw [List.append_assoc, List.cons_append, blockComment?_append_cons (by decide), hopen,
    List.append_assoc, blockComment?_append_of_not_mem hblank]
  simp [blockComment?]
  omega

lemma token_comment {cs : List Char} (h : (token cs).1 = .comment) :
    (∃ r, cs = ['/', '/'] ++ r) ∨ ∃ r n, cs = ['/', '*'] ++ r ∧ blockComment? r = some n ∧
      (token cs).2 = n + 2 := by
  by_cases hm : ∃ m ∈ marks, m <+: cs
  · obtain ⟨m, hm, r, rfl⟩ := hm
    simp only [marks, List.mem_cons, List.not_mem_nil, or_false] at hm
    rcases hm with rfl | rfl | rfl | rfl | rfl
    · exact .inl ⟨r, rfl⟩
    · rw [token_blockComment] at h ⊢
      cases hn : blockComment? r with
      | none => simp [hn] at h
      | some n => exact .inr ⟨r, n, rfl, hn, rfl⟩
    · rw [token_quotedString] at h
      cases hn : quoted? '"' r <;> simp [hn] at h
    · rw [token_rune] at h
      cases hn : quoted? '\'' r <;> simp [hn] at h
    · rw [token_rawString] at h
      cases hn : raw? r <;> simp [hn] at h
  · rw [token_eq_plainToken fun m hmem hpre => hm ⟨m, hmem, hpre⟩] at h
    have := plainToken_kind cs
    simp [h] at this

/-- A comment's text: up to the end of the line, or between its marks. -/
lemma comment_cases {f g : Front} {t : Token} (hs : Step f [t] g) (ht : t.kind = .comment) :
    f.rest = t.chars ++ g.rest ∧ g.ends = f.ends ∧
      ((∃ r, t.chars = ['/', '/'] ++ r ∧ '\n' ∉ r ∧ ∀ c ∈ g.rest.head?, c = '\n') ∨
        ∃ inner, t.chars = ['/', '*'] ++ (inner ++ ['*', '/']) ∧
          blockComment? (inner ++ ['*', '/'] ++ g.rest) = some (inner.length + 2)) := by
  cases hs with
  | newline => cases ht
  | @token a rest pos ends t ha hskip hlen h =>
    subst h
    simp only at ht
    refine ⟨rfl, by simp [endsAfter, ht], ?_⟩
    rcases token_comment ht with ⟨r, hr⟩ | ⟨r, n, hr, hn, htwo⟩
    · have htake : (a ++ rest).takeWhile (· ≠ '\n') = ['/', '/'] ++ r.takeWhile (· ≠ '\n') := by
        rw [hr]
        simp
      have hl : a.length = ((a ++ rest).takeWhile (· ≠ '\n')).length := by
        rw [hlen, htake]
        conv => lhs; rw [hr, token_lineComment, ← hr, htake]
        simp
      have hsplit := List.takeWhile_append_dropWhile (p := (· ≠ '\n')) (l := a ++ rest)
      obtain ⟨ha', hrest⟩ := List.append_inj hsplit hl.symm
      refine .inl ⟨r.takeWhile (· ≠ '\n'), ha'.symm.trans htake, fun hmem => ?_, fun c hc => ?_⟩
      · simpa using List.all_eq_true.1 List.all_takeWhile _ hmem
      · rw [← hrest] at hc
        have hnot := List.head?_dropWhile_not (· ≠ '\n') (a ++ rest)
        rw [Option.mem_def.1 hc] at hnot
        simpa using hnot
    · obtain ⟨inner, htake, rfl⟩ := blockComment?_eq_some hn
      have hl : a.length = (['/', '*'] ++ (inner ++ ['*', '/'])).length := by
        rw [hlen, htwo]
        simp
      have hr' : r = inner ++ ['*', '/'] ++ r.drop (inner.length + 2) := by
        rw [← htake, List.take_append_drop]
      rw [hr'] at hr hn
      obtain ⟨rfl, rfl⟩ := List.append_inj (by simpa using hr) hl
      exact .inr ⟨inner, rfl, hn⟩

lemma withPeriod_lineComment (r : List Char) :
    withPeriod (['/', '/'] ++ r) = ['/', '/'] ++ (r ++ ['.']) := by
  simp [withPeriod]

lemma withPeriod_blockComment (inner : List Char) :
    withPeriod (['/', '*'] ++ (inner ++ ['*', '/'])) =
      ['/', '*'] ++ (Text.trimEnd inner ++ '.' :: (Text.blankEnd inner ++ ['*', '/'])) := by
  have hstar : ∀ c ∈ ['/', '*'].getLast?, Text.isBlank c = false := by
    intro c hc
    obtain rfl : '*' = c := by simpa using hc
    decide
  have hprefix : ['/', '*'].isPrefixOf (['/', '*'] ++ (inner ++ ['*', '/'])) = true := by simp
  have hsuffix : ['*', '/'].isSuffixOf (['/', '*'] ++ (inner ++ ['*', '/'])) = true := by
    rw [List.isSuffixOf_iff_suffix, ← List.append_assoc]
    exact List.suffix_append _ _
  have hbody : (['/', '*'] ++ (inner ++ ['*', '/'])).take
      ((['/', '*'] ++ (inner ++ ['*', '/'])).length - 2) = ['/', '*'] ++ inner := by
    rw [← List.append_assoc, List.length_append]
    exact List.take_left
  rw [withPeriod, hprefix, hsuffix, hbody]
  simp only [Bool.and_self, if_true]
  rw [Text.trimEnd_append hstar, Text.blankEnd_append hstar, List.append_assoc]
  rfl

/-- A comment with a period is a comment. -/
lemma step_withPeriod {f g : Front} {t : Token} (hs : Step f [t] g) (ht : t.kind = .comment)
    (p : Nat) (e : Bool) : ∃ t', t'.kind = .comment ∧
      Step ⟨withPeriod t.chars ++ g.rest, p, e⟩ [t']
        ⟨g.rest, p + (withPeriod t.chars).length, e⟩ := by
  have hslash : ∀ r c, c ∈ (('/' : Char) :: r).head? → ¬ Skipped c p := by
    simp [Skipped, isBlank]
  have hmake {cs : List Char} (hcs : ∃ r, cs = '/' :: r)
      (htoken : token (cs ++ g.rest) = (.comment, cs.length)) : ∃ t', t'.kind = .comment ∧
      Step ⟨cs ++ g.rest, p, e⟩ [t'] ⟨g.rest, p + cs.length, e⟩ := by
    obtain ⟨r, rfl⟩ := hcs
    have hstep : Step ⟨'/' :: r ++ g.rest, p, e⟩
        [⟨(token ('/' :: r ++ g.rest)).1, p, '/' :: r⟩] _ :=
      .token (by simp) (hslash r) (by rw [htoken]; simp) rfl
    refine ⟨⟨(token ('/' :: r ++ g.rest)).1, p, '/' :: r⟩, by rw [htoken], ?_⟩
    have hends : endsAfter e ⟨(token ('/' :: r ++ g.rest)).1, p, '/' :: r⟩ = e := by
      rw [endsAfter, if_pos (by rw [htoken])]
    rwa [hends] at hstep
  rcases (comment_cases hs ht).2.2 with ⟨r, hr, hline, hrest⟩ | ⟨inner, hinner, hclosed⟩
  · rw [hr, withPeriod_lineComment]
    refine hmake ⟨'/' :: (r ++ ['.']), rfl⟩ ?_
    have hall : ∀ c ∈ ['/', '/'] ++ (r ++ ['.']), decide (c ≠ '\n') = true := by
      intro c hc
      simp only [List.mem_append, List.mem_cons, List.not_mem_nil, or_false, or_self] at hc
      rcases hc with rfl | hc | rfl
      · decide
      · simpa using fun hn : c = '\n' => hline (hn ▸ hc)
      · decide
    have hnone : g.rest.takeWhile (fun c => decide (c ≠ '\n')) = [] := by
      cases hg : g.rest with
      | nil => rfl
      | cons c rest =>
        obtain rfl := hrest c (by rw [hg]; rfl)
        simp
    rw [List.append_assoc, token_lineComment, ← List.append_assoc,
      List.takeWhile_append_of_pos hall, hnone, List.append_nil]
  · rw [hinner, withPeriod_blockComment]
    refine hmake ⟨_, rfl⟩ ?_
    have hlen := congrArg List.length (Text.trimEnd_append_blankEnd inner)
    rw [List.length_append] at hlen
    rw [List.append_assoc, token_blockComment, blockComment?_period hclosed]
    simp
    omega

lemma slash_of_comment {f g : Front} {t : Token} (hs : Step f [t] g) (ht : t.kind = .comment) :
    ∃ y z, t.chars = '/' :: y ∧ withPeriod t.chars = '/' :: z := by
  rcases (comment_cases hs ht).2.2 with ⟨r, hr, _⟩ | ⟨inner, hinner, _⟩
  · exact ⟨_, _, hr, by rw [hr, withPeriod_lineComment]; rfl⟩
  · exact ⟨_, _, hinner, by rw [hinner, withPeriod_blockComment]; rfl⟩

end Scan

/-- A comment of a readable text ends with a period, and its significant tokens stay the same. -/
theorem significant_withPeriod {text : List Char} {t : Token} (hu : Readable text)
    (hmem : t ∈ tokenize text) (ht : t.kind = .comment) :
    significant (tokenize (text.take t.start ++ withPeriod t.chars ++ text.drop t.stop)) =
      significant (tokenize text) := by
  obtain ⟨ts, f, g, hp, hs⟩ :=
    Scan.exists_step_of_mem (f := ⟨text, 0, false⟩) hmem (by rw [ht]; decide)
  obtain ⟨a, ha, hpos⟩ := hp.consumes
  obtain ⟨hrest, hends, _⟩ := Scan.comment_cases hs ht
  obtain ⟨hstart, hstop⟩ := hs.bounds t (by simp)
  simp only [Nat.zero_add] at ha hpos
  have hfree : ∀ u ∈ ts, u.kind ≠ .unknown := fun u hu' =>
    hu u (by rw [hp.tokenize_eq]; simp [hu'])
  have htake : text.take t.start = a := by
    rw [hstart, hpos, ha, List.take_left]
  have hdrop : text.drop t.stop = g.rest := by
    rw [Token.stop, hstart, hpos, ha, List.drop_length_add_append, hrest, List.drop_left]
  obtain ⟨y, z, hy, hz⟩ := Scan.slash_of_comment hs ht
  obtain ⟨t', ht', hs'⟩ := Scan.step_withPeriod hs ht a.length f.ends
  have hp' : Scan.Path ⟨a ++ (withPeriod t.chars ++ g.rest), 0, false⟩ ts
      ⟨withPeriod t.chars ++ g.rest, a.length, f.ends⟩ := by
    rw [hy] at hrest
    rw [hrest] at ha
    have := hp.replace (s := '/') (by decide) ha (b := []) (by simpa using hrest) hfree
      (z ++ g.rest)
    rw [hpos] at this
    simpa [hz] using this
  have hmove := Scan.lex_move g (q := a.length + (withPeriod t.chars).length) fun c _ =>
    Scan.skipped_iff_of_pos (by rw [← hstop, Token.stop, hy]; exact Nat.succ_pos _)
      (by rw [hz]; exact Nat.succ_pos _)
  have hnone : significant [t'] = [] := significant_of_comments (by simpa using ht')
  have hnone' : significant [t] = [] := significant_of_comments (by simpa using ht)
  rw [htake, hdrop, List.append_assoc, hp'.tokenize_eq, hs'.lex, hp.tokenize_eq, hs.lex]
  simp only [significant_append, hnone, hnone', ← hends, significant_of_map hmove]

end Go
end Mend
