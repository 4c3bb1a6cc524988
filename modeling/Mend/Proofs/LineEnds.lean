import Mathlib.Tactic.Lemma
import Mend.Proofs.Lines

/-! Where lines end. A text can be cut in two where one of its lines ends, and put together again
there, and the lines stay the same ones; only a CR and a line feed that meet become one line end. -/
namespace Mend.Text

variable {a b y cs line w : List Char} {ls : List (List Char)} {l : Nat}

/-- A line ends where `a` does, if `y` follows. -/
def EndsLine (a y : List Char) : Prop :=
  a = [] ∨ ∃ c, a.getLast? = some c ∧ isLineBreak c = true ∧ (c = '\r' → y.head? ≠ some '\n')

/-- What follows matters for a line feed only. -/
lemma EndsLine.congr (h : EndsLine a y)
    (hy : a.getLast? = some '\r' → b.head? = some '\n' → y.head? = some '\n') : EndsLine a b := by
  rcases h with h | ⟨c, hlast, hbreak, hcr⟩
  · exact .inl h
  · refine .inr ⟨c, hlast, hbreak, fun hc hb => hcr hc (hy ?_ hb)⟩
    rw [hlast, hc]

lemma EndsLine.tail {c : Char} (h : EndsLine (c :: a) y) : EndsLine a y := by
  rcases h with h | ⟨d, hlast, h⟩
  · cases h
  · cases a with
    | nil => exact .inl rfl
    | cons e a => exact .inr ⟨d, by simpa using hlast, h⟩

/-- Where a line ends the text falls into lines on both sides. -/
theorem lines_append_of_endsLine (h : EndsLine a y) :
    ∃ ls, lines a = ls ++ [[]] ∧ lines (a ++ y) = ls ++ lines y := by
  fun_induction lines a with
  | case1 => exact ⟨[], rfl, rfl⟩
  | case2 rest ih =>
    obtain ⟨ls, hls, happ⟩ := ih h.tail.tail
    exact ⟨['\r', '\n'] :: ls, by rw [hls]; rfl, by simp [lines, happ]⟩
  | case3 c rest hcr hbreak ih =>
    obtain ⟨ls, hls, happ⟩ := ih h.tail
    refine ⟨[c] :: ls, by rw [hls]; rfl, ?_⟩
    -- a CR that ends the text would take a line feed behind it
    have hnot : ∀ more, c = '\r' → rest ++ y = '\n' :: more → False := by
      rintro more rfl hmore
      cases rest with
      | nil =>
        rcases h with h | ⟨d, hlast, -, hfollow⟩
        · cases h
        · obtain rfl : '\r' = d := by simpa using hlast
          rw [List.nil_append] at hmore
          exact hfollow rfl (by rw [hmore]; rfl)
      | cons d rest =>
        obtain ⟨rfl, -⟩ := List.cons.inj hmore
        exact hcr rest rfl rfl
    rw [List.cons_append, lines, if_pos hbreak, happ]
    · rfl
    · exact hnot
  | case4 c rest hcr hbreak ih =>
    obtain ⟨ls, hls, happ⟩ := ih h.tail
    have hc : c ≠ '\r' := by
      rintro rfl
      exact hbreak (by decide)
    cases ls with
    | nil =>
      -- then nothing is behind `c`, which ends no line
      have hrest : rest = [] := by simpa [hls] using (flatten_lines rest).symm
      subst hrest
      rcases h with h | ⟨d, hlast, hd, -⟩
      · cases h
      · obtain rfl : c = d := by simpa using hlast
        exact absurd hd hbreak
    | cons first ls =>
      refine ⟨(c :: first) :: ls, by rw [hls]; rfl, ?_⟩
      rw [List.cons_append, lines, if_neg hbreak, happ]
      · rfl
      · exact fun _ h => absurd h hc

lemma unbroken_of_all (h : a.all fun c => !isLineBreak c) : ∀ c ∈ a, isLineBreak c = false := by
  simpa using h

/-- Characters that break no line come to stand in front of the first line. -/
lemma lines_append_of_unbroken (ha : ∀ c ∈ a, isLineBreak c = false)
    (hy : lines y = line :: ls) : lines (a ++ y) = (a ++ line) :: ls := by
  induction a with
  | nil => exact hy
  | cons c a ih =>
    have hc := ha c (by simp)
    have hrest := ih fun d hd => ha d (by simp [hd])
    have hcr : c ≠ '\r' := by
      rintro rfl
      cases hc
    rw [List.cons_append, lines, hc, hrest]
    · rfl
    · exact fun _ h => absurd h hcr

lemma lines_feed (y : List Char) : lines ('\n' :: y) = ['\n'] :: lines y := by
  simp [lines, isLineBreak]

/-- A line that ends with a line feed and has no other line break. -/
def OneLine (w : List Char) : Prop :=
  ∃ body, (∀ c ∈ body, isLineBreak c = false) ∧ w = body ++ ['\n']

lemma OneLine.lines_append (h : OneLine w) (y : List Char) : lines (w ++ y) = w :: lines y := by
  obtain ⟨body, hbody, rfl⟩ := h
  rw [List.append_assoc]
  exact lines_append_of_unbroken hbody (lines_feed y)

lemma ne_nil_of_lines_cons {rest : List (List Char)} (h : lines cs = line :: rest)
    (hne : rest ≠ []) : line ≠ [] := by
  have hpos := List.length_pos_iff.2 hne
  exact ne_nil_of_lines (l := 0) (by rw [h]; rfl) (by rw [h, List.length_cons]; omega)

/-- Behind its first line a text has its other lines. -/
theorem lines_eq_cons {rest : List (List Char)} (h : lines cs = line :: rest) (hne : rest ≠ []) :
    cs = line ++ rest.flatten ∧ lines rest.flatten = rest ∧ EndsLine line rest.flatten := by
  have hcs : cs = line ++ rest.flatten := by rw [← List.flatten_cons, ← h, flatten_lines]
  refine ⟨hcs, ?_⟩
  fun_induction lines cs generalizing line rest with
  | case1 =>
    obtain ⟨-, rfl⟩ := List.cons.inj h
    exact absurd rfl hne
  | case2 more ih =>
    obtain ⟨rfl, rfl⟩ := List.cons.inj h
    rw [flatten_lines]
    exact ⟨rfl, .inr ⟨'\n', rfl, by decide, fun h => absurd h (by decide)⟩⟩
  | case3 c more hcr hbreak ih =>
    obtain ⟨rfl, rfl⟩ := List.cons.inj h
    rw [flatten_lines]
    refine ⟨rfl, .inr ⟨c, rfl, hbreak, ?_⟩⟩
    rintro rfl hmore
    obtain ⟨more, rfl⟩ := List.head?_eq_some_iff.1 hmore
    exact hcr more rfl rfl
  | case4 c more hcr hbreak ih =>
    cases hlines : lines more with
    | nil => simp_all [consFirst]
    | cons first others =>
      rw [hlines] at h
      obtain ⟨rfl, rfl⟩ := List.cons.inj h
      obtain ⟨hothers, hends⟩ := ih hlines hne (by simpa using hcs)
      refine ⟨hothers, ?_⟩
      rcases hends with rfl | ⟨d, hlast, hd⟩
      · exact absurd rfl (ne_nil_of_lines_cons hlines hne)
      · exact .inr ⟨d, by simp [List.getLast?_cons, hlast], hd⟩

/-- A line that others follow is one line, whatever follows it that does not change its end. -/
lemma lines_line_append {rest : List (List Char)} (h : lines cs = line :: rest) (hne : rest ≠ [])
    (hy : EndsLine line y) : lines (line ++ y) = line :: lines y := by
  obtain ⟨hcs, hrest, hends⟩ := lines_eq_cons h hne
  obtain ⟨front, hfront, happ⟩ := lines_append_of_endsLine hends
  obtain ⟨front', hfront', happ'⟩ := lines_append_of_endsLine hy
  obtain rfl : front = front' := List.append_cancel_right (hfront.symm.trans hfront')
  rw [← hcs, h, hrest, ← List.singleton_append] at happ
  rw [happ', ← List.append_cancel_right happ, List.singleton_append]

lemma EndsLine.append (ha : EndsLine a (b ++ y)) (hb : EndsLine b y) : EndsLine (a ++ b) y := by
  rcases hb with rfl | ⟨c, hlast, hc⟩
  · simpa using ha
  · exact .inr ⟨c, by simp [List.getLast?_append, hlast], hc⟩

/-- Behind a number of its lines a text has its other lines. -/
theorem lines_drop (hl : l < (lines cs).length) :
    lines ((lines cs).drop l).flatten = (lines cs).drop l ∧
      EndsLine ((lines cs).take l).flatten ((lines cs).drop l).flatten := by
  induction l generalizing cs with
  | zero => exact ⟨by rw [List.drop_zero, flatten_lines], .inl rfl⟩
  | succ l ih =>
    obtain ⟨line, rest, hlines⟩ := List.exists_cons_of_length_pos (length_lines_pos cs)
    rw [hlines] at hl ⊢
    rw [List.length_cons, Nat.add_lt_add_iff_right] at hl
    obtain ⟨-, hrest, hends⟩ := lines_eq_cons hlines (List.ne_nil_of_length_pos (by omega))
    rw [← hrest] at hl
    obtain ⟨hdrop, hends'⟩ := ih hl
    rw [hrest] at hdrop hends'
    refine ⟨hdrop, ?_⟩
    rw [List.take_succ_cons, List.drop_succ_cons, List.flatten_cons]
    refine EndsLine.append ?_ hends'
    rwa [← List.flatten_append, List.take_append_drop]

/-- The last line ends with no terminator, so that it is empty only if it has no characters. -/
lemma eq_nil_of_bareLine_last (h : (lines cs)[l]? = some line) (hl : l + 1 = (lines cs).length)
    (hbare : bareLine line = []) : line = [] := by
  obtain ⟨hdrop, -⟩ := @lines_drop cs l (by omega)
  have hlast : (lines cs).drop l = [line] := by
    obtain ⟨hlt, rfl⟩ := List.getElem?_eq_some_iff.1 h
    rw [List.drop_eq_getElem_cons hlt, List.drop_eq_nil_of_le (Nat.le_of_eq hl.symm)]
  rw [hlast, List.flatten_singleton] at hdrop
  refine Classical.byContradiction fun hne => ?_
  rcases eq_of_bareLine_eq_nil hbare hne with rfl | rfl | rfl <;> exact absurd hdrop (by decide)

/-- A line that starts with a line feed has nothing else. -/
lemma eq_of_head?_lines {rest : List (List Char)} (h : lines cs = line :: rest)
    (hhead : cs.head? = some '\n') : line = ['\n'] := by
  obtain ⟨more, rfl⟩ := List.head?_eq_some_iff.1 hhead
  exact (List.cons.inj (h.symm.trans (lines_feed more))).1

/-- In front of the CR that ends it a line has no line break. -/
lemma eq_concat_of_lines {rest : List (List Char)} (h : lines cs = line :: rest)
    (hlast : line.getLast? = some '\r') :
    ∃ body, (∀ c ∈ body, isLineBreak c = false) ∧ line = body ++ ['\r'] := by
  fun_induction lines cs generalizing line rest with
  | case1 =>
    obtain ⟨rfl, -⟩ := List.cons.inj h
    cases hlast
  | case2 more ih =>
    obtain ⟨rfl, -⟩ := List.cons.inj h
    cases hlast
  | case3 c more hcr hbreak ih =>
    obtain ⟨rfl, -⟩ := List.cons.inj h
    obtain rfl : c = '\r' := by simpa using hlast
    exact ⟨[], by simp, rfl⟩
  | case4 c more hcr hbreak ih =>
    cases hlines : lines more with
    | nil =>
      have hpos := length_lines_pos more
      simp [hlines] at hpos
    | cons first others =>
      rw [hlines] at h
      obtain ⟨rfl, -⟩ := List.cons.inj h
      cases first with
      | nil =>
        obtain rfl : c = '\r' := by simpa using hlast
        exact absurd (by decide) hbreak
      | cons d first =>
        obtain ⟨body, hbody, hline⟩ := ih hlines (by simpa using hlast)
        refine ⟨c :: body, ?_, by rw [hline, List.cons_append]⟩
        rintro x (_ | ⟨_, hx⟩)
        · simpa using hbreak
        · exact hbody x hx

/-- A line feed behind a CR that ends a line goes to the end of that line. -/
lemma lines_append_feed {rest : List (List Char)} (h : lines cs = line :: rest)
    (hlast : line.getLast? = some '\r') (y : List Char) :
    ∃ joined, lines (line ++ '\n' :: y) = joined :: lines y ∧ bareLine joined = bareLine line := by
  obtain ⟨body, hbody, rfl⟩ := eq_concat_of_lines h hlast
  have hends : lines ('\r' :: '\n' :: y) = ['\r', '\n'] :: lines y := rfl
  refine ⟨body ++ ['\r', '\n'], ?_, by simp [bareLine]⟩
  rw [List.append_assoc, List.singleton_append]
  exact lines_append_of_unbroken hbody hends

/-- A line put in where one ends is one more line. -/
theorem lines_insert (hw : OneLine w) (hl : l < (lines cs).length)
    (hends : EndsLine ((lines cs).take l).flatten w) :
    lines (((lines cs).take l).flatten ++ (w ++ ((lines cs).drop l).flatten)) =
      (lines cs).insertIdx l w := by
  obtain ⟨hdrop, hends'⟩ := lines_drop hl
  -- the lines in front are the same ones with and without the new line behind them
  obtain ⟨front, hfront, holds⟩ := lines_append_of_endsLine hends'
  have hnews : EndsLine ((lines cs).take l).flatten (w ++ ((lines cs).drop l).flatten) := by
    obtain ⟨body, -, rfl⟩ := hw
    refine hends.congr fun _ h => ?_
    cases body with
    | nil => rfl
    | cons c body => exact h
  obtain ⟨front', hfront', hnew⟩ := lines_append_of_endsLine hnews
  obtain rfl : front = front' := List.append_cancel_right (hfront.symm.trans hfront')
  have hcs : ((lines cs).take l).flatten ++ ((lines cs).drop l).flatten = cs := by
    rw [← List.flatten_append, List.take_append_drop, flatten_lines]
  rw [hcs, hdrop] at holds
  obtain rfl : (lines cs).take l = front :=
    List.append_cancel_right ((List.take_append_drop l (lines cs)).trans holds)
  have hinsert := List.modifyTailIdx_add (List.cons w) 0 ((lines cs).take l) ((lines cs).drop l)
  rw [List.length_take_of_le (Nat.le_of_lt hl), Nat.add_zero, List.take_append_drop,
    List.modifyTailIdx_zero] at hinsert
  rw [hnew, hw.lines_append, hdrop, List.insertIdx, hinsert]

/-- Lines put in front of a text are lines of it. -/
lemma lines_flatten_append {ws : List (List Char)} (hw : ∀ w ∈ ws, OneLine w) (y : List Char) :
    lines (ws.flatten ++ y) = ws ++ lines y := by
  induction ws with
  | nil => rfl
  | cons w ws ih =>
    have hrest := ih fun v hv => hw v (by simp [hv])
    rw [List.flatten_cons, List.append_assoc, (hw w (by simp)).lines_append, hrest,
      List.cons_append]

/-- A text with lines put above its own starts with a line feed only if it did before. -/
lemma head?_interleave {above : Nat → List (List Char)}
    (hw : ∀ l, ∀ w ∈ above l, OneLine w ∧ w.head? ≠ some '\n') {k : Nat}
    (hls : lines ls.flatten = ls)
    (h : ((ls.zipIdx k).flatMap fun x => (above x.2).flatten ++ x.1).head? = some '\n') :
    ls.flatten.head? = some '\n' := by
  cases ls with
  | nil => cases h
  | cons line rest =>
    rw [List.zipIdx_cons, List.flatMap_cons, List.append_assoc] at h
    rcases habove : above k with _ | ⟨w, ws⟩
    · rw [habove, List.flatten_nil, List.nil_append] at h
      cases line with
      | cons c line => exact h
      | nil =>
        -- a line without characters is the last one
        cases rest with
        | nil => exact h
        | cons next rest =>
          exact absurd rfl (ne_nil_of_lines_cons hls (List.cons_ne_nil next rest))
    · obtain ⟨⟨body, -, rfl⟩, hne⟩ := hw k w (by simp [habove])
      rw [habove] at h
      cases body <;> exact absurd h hne

/-- Lines put above each of the lines of a text, none of which starts with a line feed, which a CR
in front of it would take. The induction is on the lines from line `k` on. -/
lemma lines_interleave {above : Nat → List (List Char)}
    (hw : ∀ l, ∀ w ∈ above l, OneLine w ∧ w.head? ≠ some '\n') {k : Nat}
    (hls : lines ls.flatten = ls) :
    lines ((ls.zipIdx k).flatMap fun x => (above x.2).flatten ++ x.1) =
      (ls.zipIdx k).flatMap fun x => above x.2 ++ [x.1] := by
  induction ls generalizing k with
  | nil => cases hls
  | cons line rest ih =>
    rw [List.zipIdx_cons, List.flatMap_cons, List.flatMap_cons, List.append_assoc,
      lines_flatten_append fun w h => (hw k w h).1, List.append_assoc]
    congr 1
    rcases rest with _ | ⟨next, rest⟩
    · simpa using hls
    · have hne := List.cons_ne_nil next rest
      obtain ⟨-, hrest, hends⟩ := lines_eq_cons hls hne
      have hends' := hends.congr fun _ hhead => head?_interleave (k := k + 1) hw hrest hhead
      rw [lines_line_append hls hne hends', ih hrest, List.singleton_append]

/-- A text falls into what ends with a line break and what has none behind it. -/
lemma exists_unbroken_end (u : List Char) :
    ∃ a b, u = a ++ b ∧ (∀ c ∈ b, isLineBreak c = false) ∧
      (a = [] ∨ ∃ c, a.getLast? = some c ∧ isLineBreak c = true) := by
  induction u with
  | nil => exact ⟨[], [], rfl, by simp, .inl rfl⟩
  | cons c u ih =>
    obtain ⟨a, b, rfl, hb, rfl | ⟨d, hlast, hd⟩⟩ := ih
    · by_cases hc : isLineBreak c = true
      · exact ⟨[c], b, rfl, hb, .inr ⟨c, rfl, hc⟩⟩
      · refine ⟨[], c :: b, rfl, ?_, .inl rfl⟩
        rintro x (_ | ⟨_, hx⟩)
        · simpa using hc
        · exact hb x hx
    · exact ⟨c :: a, b, rfl, hb, .inr ⟨d, by simp [List.getLast?_cons, hlast], hd⟩⟩

/-- Wherever a text is cut, its lines in front of the cut do not depend on what is behind it, unless
this is a line feed that a CR takes. -/
theorem exists_lines_append (u : List Char) : ∃ ls b, u = ls.flatten ++ b ∧
    (∀ c ∈ b, isLineBreak c = false) ∧
    ∀ y, ¬ (u.getLast? = some '\r' ∧ y.head? = some '\n') →
      lines (u ++ y) = ls ++ lines (b ++ y) := by
  obtain ⟨a, b, rfl, hb, ha⟩ := exists_unbroken_end u
  have hends {y : List Char} (hy : ¬ ((a ++ b).getLast? = some '\r' ∧ y.head? = some '\n')) :
      EndsLine a (b ++ y) := by
    rcases ha with ha | ⟨c, hlast, hc⟩
    · exact .inl ha
    · refine .inr ⟨c, hlast, hc, ?_⟩
      rintro rfl hhead
      cases b with
      | nil => exact hy ⟨by rw [List.append_nil, hlast], hhead⟩
      | cons x b =>
        obtain rfl : x = '\n' := by simpa using hhead
        exact absurd (hb '\n' (by simp)) (by decide)
  obtain ⟨ls, hls, -⟩ := lines_append_of_endsLine (hends (y := []) (by simp))
  refine ⟨ls, b, ?_, hb, fun y hy => ?_⟩
  · have hflat := congrArg List.flatten hls
    rw [flatten_lines] at hflat
    simpa using hflat
  · obtain ⟨ls', hls', happ⟩ := lines_append_of_endsLine (hends hy)
    obtain rfl : ls = ls' := List.append_cancel_right (hls.symm.trans hls')
    rw [List.append_assoc, happ]

/-- What has no line break comes to stand in front of the text of a line. -/
lemma bareLine_append (ha : ∀ c ∈ a, isLineBreak c = false) (line : List Char) :
    bareLine (a ++ line) = a ++ bareLine line := by
  have hcut {x : Char} (hx : isLineBreak x = true) (cs : List Char) :
      (if (a ++ cs).getLast? = some x then (a ++ cs).dropLast else a ++ cs) =
        a ++ if cs.getLast? = some x then cs.dropLast else cs := by
    have hne : a.getLast? ≠ some x := fun h => by
      rw [ha x (List.mem_of_getLast? h)] at hx
      cases hx
    cases cs with
    | nil => simp [hne]
    | cons c cs =>
      have hcons := List.cons_ne_nil c cs
      rw [List.getLast?_append, List.getLast?_eq_some_getLast hcons, Option.some_or,
        List.dropLast_append_of_ne_nil hcons, apply_ite (a ++ ·)]
  simp only [bareLine]
  rw [hcut (by decide), hcut (by decide)]

lemma bareLine_prefix (line : List Char) : bareLine line <+: line := by
  have hcut (x : Char) (cs : List Char) :
      (if cs.getLast? = some x then cs.dropLast else cs) <+: cs := by
    split
    · exact List.dropLast_prefix cs
    · exact List.prefix_refl cs
  exact (hcut '\r' _).trans (hcut '\n' line)

end Mend.Text
