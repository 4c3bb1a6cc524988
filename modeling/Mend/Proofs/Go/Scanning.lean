import Mathlib.Tactic.Lemma
import Mend.Go.Token

/-! How far a token looks. Where a token ends in front of white space, a comment or a raw string,
what comes after that has no say in it. -/
namespace Mend.Go.Scan

/-- White space, and what comments and raw strings start with: no number, name, keyword or operator
goes on with one of these. -/
def stops : List Char := ['\t', '\n', '\x0b', '\x0c', '\r', ' ', '/', '\x60']

lemma takeWhile_append_stop {p : Char → Bool} {s : Char} (hs : p s = false)
    (a y : List Char) : (a ++ s :: y).takeWhile p = a.takeWhile p := by
  induction a with
  | nil => simp [hs]
  | cons c a ih => simp [List.takeWhile_cons, ih]

lemma stop_class {s : Char} (hs : s ∈ stops) :
    isDigit s = false ∧ isHexDigit s = false ∧ s.isDigit = false ∧
      Identifier.isStart s = false ∧ Identifier.isContinue s = false ∧
      s ∉ ['.', 'i', '+', '-', 'x', 'X', 'b', 'B', 'o', 'O', 'p', 'P', 'e', 'E'] := by
  have h : stops.all (fun s => decide (isDigit s = false ∧ isHexDigit s = false ∧
      s.isDigit = false ∧ Identifier.isStart s = false ∧ Identifier.isContinue s = false ∧
      s ∉ ['.', 'i', '+', '-', 'x', 'X', 'b', 'B', 'o', 'O', 'p', 'P', 'e', 'E'])) = true := by
    decide +kernel
  exact of_decide_eq_true (List.all_eq_true.1 h s hs)

variable {s : Char}

lemma exponent_append {marks : List Char} (hm : s ∉ marks) (hs : s ∈ stops) (a y : List Char) :
    exponent marks (a ++ s :: y) = exponent marks a := by
  obtain ⟨hd, _, _, _, _, hp⟩ := stop_class hs
  match a with
  | [] =>
    cases y with
    | nil => rfl
    | cons c y => simp [exponent, hm]
  | [mark] =>
    simp_all [exponent]
  | mark :: sign :: rest =>
    simp [exponent, takeWhile_append_stop hd]

lemma fraction_append {digit : Char → Bool} (hd : digit s = false) (hs : s ≠ '.')
    (a y : List Char) : fraction digit (a ++ s :: y) = fraction digit a := by
  match a with
  | [] => simp [fraction, hs]
  | c :: more =>
    by_cases hc : c = '.'
    · subst hc
      simp [fraction, takeWhile_append_stop hd]
    · simp [fraction, hc]

lemma length_exponent_le (marks cs : List Char) : (exponent marks cs).length ≤ cs.length := by
  unfold exponent
  split
  · rename_i mark sign rest
    have hdigits : (rest.takeWhile isDigit).length ≤ rest.length :=
      (List.takeWhile_sublist isDigit).length_le
    split
    · split
      · simpa using hdigits
      · split
        · simpa using hdigits
        · simp
    · simp
  · simp

lemma length_fraction_le (digit : Char → Bool) (cs : List Char) :
    (fraction digit cs).length ≤ cs.length := by
  unfold fraction
  split
  · simpa using (List.takeWhile_sublist digit).length_le
  · simp

lemma length_mantissa_le (digit : Char → Bool) (marks cs : List Char) :
    (mantissa digit marks cs).1.length ≤ cs.length := by
  have hwhole : (cs.takeWhile digit).length ≤ cs.length :=
    (List.takeWhile_sublist digit).length_le
  have hpoint := length_fraction_le digit (cs.drop (cs.takeWhile digit).length)
  have hpower := length_exponent_le marks ((cs.drop (cs.takeWhile digit).length).drop
    (fraction digit (cs.drop (cs.takeWhile digit).length)).length)
  simp only [mantissa, List.length_append, List.length_drop] at *
  omega

lemma mantissa_append {digit : Char → Bool} {marks : List Char} (hd : digit s = false)
    (hm : s ∉ marks) (hs : s ∈ stops) (a y : List Char) :
    mantissa digit marks (a ++ s :: y) = mantissa digit marks a := by
  have hp : s ≠ '.' := fun h => (stop_class hs).2.2.2.2.2 (by simp [h])
  have hwhole : (a.takeWhile digit).length ≤ a.length :=
    (List.takeWhile_sublist digit).length_le
  have hpoint := length_fraction_le digit (a.drop (a.takeWhile digit).length)
  unfold mantissa
  simp only
  rw [takeWhile_append_stop hd, List.drop_append_of_le_length hwhole, fraction_append hd hp,
    List.drop_append_of_le_length hpoint, exponent_append hm hs]

lemma length_number_le (cs : List Char) : (number cs).1.length ≤ cs.length := by
  unfold number
  split
  · rename_i x rest
    split
    · simpa using length_mantissa_le isHexDigit ['p', 'P'] rest
    · split
      · simpa using (List.takeWhile_sublist isDigit).length_le
      · exact length_mantissa_le isDigit ['e', 'E'] _
  · exact length_mantissa_le isDigit ['e', 'E'] cs

lemma number_append (hs : s ∈ stops) (a y : List Char) : number (a ++ s :: y) = number a := by
  obtain ⟨hd, hx, _, _, _, hp⟩ := stop_class hs
  simp only [List.mem_cons, List.not_mem_nil, or_false, not_or] at hp
  have hdec (b : List Char) :
      mantissa isDigit ['e', 'E'] (b ++ s :: y) = mantissa isDigit ['e', 'E'] b :=
    mantissa_append hd (by simp [hp]) hs b y
  have hhex (b : List Char) :
      mantissa isHexDigit ['p', 'P'] (b ++ s :: y) = mantissa isHexDigit ['p', 'P'] b :=
    mantissa_append hx (by simp [hp]) hs b y
  match a with
  | [] =>
    have hzero : s ≠ '0' := fun h => by simp [h, isDigit] at hd
    simpa [number, hzero] using hdec []
  | [c] =>
    by_cases hc : c = '0'
    · subst hc
      simpa [number, hp] using hdec ['0']
    · simpa [number, hc] using hdec [c]
  | c :: x :: rest =>
    by_cases hc : c = '0'
    · subst hc
      have h := hdec ('0' :: x :: rest)
      simp only [List.cons_append] at h
      simp only [number, List.cons_append, hhex, takeWhile_append_stop hd, h]
    · simpa [number, hc] using hdec (c :: x :: rest)

lemma startsNumber_append (hs : s ∈ stops) {a : List Char} (ha : a ≠ []) (y : List Char) :
    startsNumber (a ++ s :: y) = startsNumber a := by
  obtain ⟨_, _, hdigit, _⟩ := stop_class hs
  match a with
  | [c] => simp [startsNumber, hdigit]
  | c :: x :: rest => simp [startsNumber]

/-- No operator goes on with a stop. -/
lemma operators_stop : ∀ op ∈ operators, ∀ c ∈ op.tail, c ∉ stops := by
  have h : operators.all (fun op => op.tail.all fun c => decide (c ∉ stops)) = true := by
    decide +kernel
  intro op hop c hc
  exact of_decide_eq_true (List.all_eq_true.1 (List.all_eq_true.1 h op hop) c hc)

lemma isPrefixOf_append_stop {op a : List Char} (hop : op ∈ operators) (ha : a ≠ [])
    (hs : s ∈ stops) (y : List Char) : op.isPrefixOf (a ++ s :: y) = op.isPrefixOf a := by
  rw [Bool.eq_iff_iff, List.isPrefixOf_iff_prefix, List.isPrefixOf_iff_prefix]
  refine ⟨fun h => ?_, fun h => h.trans (List.prefix_append a _)⟩
  obtain ⟨t, ht⟩ := h
  rcases List.append_eq_append_iff.1 ht with ⟨b, rfl, _⟩ | ⟨b, rfl, hb⟩
  · exact List.prefix_append op b
  · cases b with
    | nil => simp
    | cons c b =>
      obtain ⟨rfl, _⟩ := List.cons.inj hb
      cases a with
      | nil => exact absurd rfl ha
      | cons x a => exact absurd hs (operators_stop _ hop s (by simp))

lemma length_plainToken_le {cs : List Char} (h : cs ≠ []) : (plainToken cs).2 ≤ cs.length := by
  unfold plainToken
  split
  · have hnumber := length_number_le cs
    simp only
    split
    · rename_i hi
      have hlt : (number cs).1.length < cs.length := by
        rcases Nat.lt_or_ge (number cs).1.length cs.length with h | h
        · exact h
        · rw [List.drop_eq_nil_of_le h] at hi
          cases hi
      exact hlt
    · exact hnumber
  · split
    · exact (List.takeWhile_sublist _).length_le
    · split
      · rename_i op hop
        exact (List.isPrefixOf_iff_prefix.1 (by simpa using List.find?_some hop)).length_le
      · exact List.length_pos_iff.2 h

/-- A number, name, keyword or operator ends in front of a stop. -/
theorem plainToken_append (hs : s ∈ stops) {a : List Char} (ha : a ≠ []) (y : List Char) :
    plainToken (a ++ s :: y) = plainToken a := by
  obtain ⟨_, _, _, _, hcontinue, hp⟩ := stop_class hs
  have hhead : (a ++ s :: y).head? = a.head? := by
    cases a with
    | nil => exact absurd rfl ha
    | cons c a => rfl
  have hi : ((a ++ s :: y).drop (number a).1.length).head? = some 'i' ↔
      (a.drop (number a).1.length).head? = some 'i' := by
    rw [List.drop_append_of_le_length (length_number_le a)]
    cases a.drop (number a).1.length with
    | nil =>
      have : s ≠ 'i' := fun h => hp (by simp [h])
      simp [this]
    | cons c rest => simp
  have hoperator : operators.find? (·.isPrefixOf (a ++ s :: y)) =
      operators.find? (·.isPrefixOf a) := by
    rw [← List.head?_filter, ← List.head?_filter,
      List.filter_congr fun op hop => isPrefixOf_append_stop hop ha hs y]
  simp only [plainToken, startsNumber_append hs ha, number_append hs, hi, hhead,
    takeWhile_append_stop hcontinue, hoperator]

/-- What tokens start with that reach up to a closing mark or to the end of the line. -/
def marks : List (List Char) := [['/', '/'], ['/', '*'], ['"'], ['\''], ['\x60']]

lemma token_eq_plainToken {cs : List Char} (h : ∀ m ∈ marks, ¬ m <+: cs) :
    token cs = plainToken cs := by
  unfold token
  split <;> simp_all [marks]

lemma prefix_append_stop_iff {m a : List Char} (hm : m ∈ marks) (ha : a ≠ []) (y y' : List Char) :
    m <+: a ++ s :: y ↔ m <+: a ++ s :: y' := by
  obtain ⟨c, rest, rfl⟩ := List.exists_cons_of_ne_nil ha
  simp only [marks, List.mem_cons, List.not_mem_nil, or_false] at hm
  rcases hm with rfl | rfl | rfl | rfl | rfl <;> cases rest <;> simp

/-- What closes a comment is found in its own text, whatever comes after it. -/
lemma blockComment?_take {cs : List Char} {n : Nat} (h : blockComment? cs = some n) :
    0 < n ∧ n ≤ cs.length ∧ ∀ v, blockComment? (cs.take n ++ v) = some n := by
  fun_induction blockComment? cs generalizing n with
  | case1 => cases h
  | case2 rest =>
    obtain rfl := Option.some.inj h
    exact ⟨by omega, by simp, fun v => by simp [blockComment?]⟩
  | case3 c rest hne ih =>
    obtain ⟨k, hk, rfl⟩ := Option.map_eq_some_iff.1 h
    obtain ⟨hpos, hle, hv⟩ := ih hk
    refine ⟨by omega, by simpa using hle, fun v => ?_⟩
    rw [List.take_succ_cons, List.cons_append, blockComment?, hv]
    · rfl
    · intro tail hc htail
      cases rest with
      | nil => cases hk
      | cons x rest =>
        obtain ⟨j, rfl⟩ : ∃ j, k = j + 1 := ⟨k - 1, by omega⟩
        rw [List.take_succ_cons, List.cons_append] at htail
        obtain ⟨rfl, _⟩ := List.cons.inj htail
        exact hne rest hc rfl

lemma quoted?_take {quote : Char} (hq : quote ≠ '\\') {cs : List Char} {n : Nat}
    (h : quoted? quote cs = some n) :
    0 < n ∧ n ≤ cs.length ∧ ∀ v, quoted? quote (cs.take n ++ v) = some n := by
  fun_induction quoted? quote cs generalizing n with
  | case1 => cases h
  | case2 => cases h
  | case3 c rest hc ih =>
    obtain ⟨k, hk, rfl⟩ := Option.map_eq_some_iff.1 h
    obtain ⟨hpos, hle, hv⟩ := ih hk
    exact ⟨by omega, by simpa using hle, fun v => by simp [quoted?, hc, hv]⟩
  | case4 rest =>
    obtain rfl := Option.some.inj h
    exact ⟨by omega, by simp, fun v => by simp [quoted?, hq]⟩
  | case5 => cases h
  | case6 c rest hne hquote hline ih =>
    obtain ⟨k, hk, rfl⟩ := Option.map_eq_some_iff.1 h
    obtain ⟨hpos, hle, hv⟩ := ih hk
    have hc : c ≠ '\\' := by
      rintro rfl
      cases rest with
      | nil => cases hk
      | cons x rest => exact hne x rest rfl rfl
    exact ⟨by omega, by simpa using hle, fun v => by simp [quoted?, hc, hquote, hline, hv]⟩

lemma raw?_take {cs : List Char} {n : Nat} (h : raw? cs = some n) :
    0 < n ∧ n ≤ cs.length ∧ ∀ v, raw? (cs.take n ++ v) = some n := by
  fun_induction raw? cs generalizing n with
  | case1 => cases h
  | case2 rest =>
    obtain rfl := Option.some.inj h
    exact ⟨by omega, by simp, fun v => by simp [raw?]⟩
  | case3 c rest hc ih =>
    obtain ⟨k, hk, rfl⟩ := Option.map_eq_some_iff.1 h
    obtain ⟨hpos, hle, hv⟩ := ih hk
    exact ⟨by omega, by simpa using hle, fun v => by simp [raw?, hc, hv]⟩

lemma append_of_take {f : List Char → Option Nat} {u v : List Char} {n : Nat}
    (hf : ∀ w, f ((u ++ v).take n ++ w) = some n) (hn : n ≤ u.length) (v' : List Char) :
    f (u ++ v') = some n := by
  have h := hf (u.drop n ++ v')
  rwa [List.take_append_of_le_length hn, ← List.append_assoc, List.take_append_drop] at h

lemma takeWhile_append_of_length_le {p : Char → Bool} {a y : List Char}
    (h : ((a ++ s :: y).takeWhile p).length ≤ a.length) (y' : List Char) :
    (a ++ s :: y').takeWhile p = (a ++ s :: y).takeWhile p := by
  induction a with
  | nil =>
    cases hs : p s with
    | true => simp [hs] at h
    | false => simp [hs]
  | cons c a ih =>
    cases hc : p c with
    | true =>
      simp only [List.cons_append, List.takeWhile_cons, hc, if_true, List.length_cons] at h ⊢
      rw [ih (by omega)]
    | false => simp [hc]

theorem length_token_le {cs : List Char} (h : cs ≠ []) : (token cs).2 ≤ cs.length := by
  have hpos : 0 < cs.length := List.length_pos_iff.2 h
  unfold token
  split
  · exact (List.takeWhile_sublist _).length_le
  · split
    · rename_i n hn
      have := (blockComment?_take hn).2.1
      simpa using this
    · exact hpos
  · split
    · rename_i n hn
      have := (quoted?_take (by decide) hn).2.1
      simpa using this
    · exact hpos
  · split
    · rename_i n hn
      have := (quoted?_take (by decide) hn).2.1
      simpa using this
    · exact hpos
  · split
    · rename_i n hn
      have := (raw?_take hn).2.1
      simpa using this
    · exact hpos
  · exact length_plainToken_le h

lemma token_lineComment (r : List Char) : token (['/', '/'] ++ r) =
    (.comment, ((['/', '/'] ++ r).takeWhile (· ≠ '\n')).length) := rfl

lemma token_blockComment (r : List Char) : token (['/', '*'] ++ r) =
    (blockComment? r).elim (.unknown, 1) fun n => (.comment, n + 2) := by
  cases h : blockComment? r <;> simp [token, h]

lemma token_quotedString (r : List Char) : token (['"'] ++ r) =
    (quoted? '"' r).elim (.unknown, 1) fun n => (.quotedString, n + 1) := by
  cases h : quoted? '"' r <;> simp [token, h]

lemma token_rune (r : List Char) : token (['\''] ++ r) =
    (quoted? '\'' r).elim (.unknown, 1) fun n => (.rune, n + 1) := by
  cases h : quoted? '\'' r <;> simp [token, h]

lemma token_rawString (r : List Char) : token (['\x60'] ++ r) =
    (raw? r).elim (.unknown, 1) fun n => (.rawString, n + 1) := by
  cases h : raw? r <;> simp [token, h]

lemma token_append_closed {f : List Char → Option Nat} {k : TokenKind} {m a y : List Char}
    (htoken : ∀ r, token (m ++ r) = (f r).elim (.unknown, 1) fun n => (k, n + m.length))
    (hf : ∀ {cs n}, f cs = some n → ∀ v, f (cs.take n ++ v) = some n)
    (hpre : m <+: a ++ s :: y) (hk : (token (a ++ s :: y)).1 ≠ .unknown)
    (hn : (token (a ++ s :: y)).2 ≤ a.length) (y' : List Char) :
    token (a ++ s :: y') = token (a ++ s :: y) := by
  obtain ⟨r, hr⟩ := hpre
  rw [← hr, htoken] at hk hn ⊢
  cases hfr : f r with
  | none => simp [hfr] at hk
  | some n =>
    simp only [hfr, Option.elim_some] at hn ⊢
    obtain ⟨b, rfl⟩ : m <+: a := List.prefix_of_prefix_length_le ⟨r, hr⟩
      (List.prefix_append a _) (by omega)
    rw [List.append_assoc, List.append_cancel_left_eq] at hr
    subst hr
    rw [List.length_append] at hn
    rw [List.append_assoc, htoken, append_of_take (hf hfr) (by omega), Option.elim_some]

/-- A token that ends in front of a stop is read the same whatever comes after the stop. -/
theorem token_append (hs : s ∈ stops) {a y : List Char} (ha : a ≠ [])
    (hk : (token (a ++ s :: y)).1 ≠ .unknown) (hn : (token (a ++ s :: y)).2 ≤ a.length)
    (y' : List Char) : token (a ++ s :: y') = token (a ++ s :: y) := by
  by_cases hm : ∃ m ∈ marks, m <+: a ++ s :: y
  · obtain ⟨m, hm, hpre⟩ := hm
    have hpre' := (prefix_append_stop_iff hm ha y y').1 hpre
    simp only [marks, List.mem_cons, List.not_mem_nil, or_false] at hm
    rcases hm with rfl | rfl | rfl | rfl | rfl
    · obtain ⟨r, hr⟩ := hpre
      obtain ⟨r', hr'⟩ := hpre'
      rw [← hr, token_lineComment, hr] at hn
      rw [← hr, ← hr', token_lineComment, token_lineComment, hr, hr',
        takeWhile_append_of_length_le hn]
    · exact token_append_closed token_blockComment (fun h => (blockComment?_take h).2.2)
        hpre hk hn y'
    · exact token_append_closed token_quotedString (fun h => (quoted?_take (by decide) h).2.2)
        hpre hk hn y'
    · exact token_append_closed token_rune (fun h => (quoted?_take (by decide) h).2.2)
        hpre hk hn y'
    · exact token_append_closed token_rawString (fun h => (raw?_take h).2.2) hpre hk hn y'
  · have hplain (z : List Char) (h : ∀ m ∈ marks, ¬ m <+: a ++ s :: z) :
        token (a ++ s :: z) = plainToken a := by
      rw [token_eq_plainToken h, plainToken_append hs ha]
    rw [hplain y fun m hmem h => hm ⟨m, hmem, h⟩, hplain y' fun m hmem h =>
      hm ⟨m, hmem, (prefix_append_stop_iff hmem ha y y').2 h⟩]

/-- A character that is no part of a closing mark keeps the text on its two sides apart. -/
lemma blockComment?_append_cons {c : Char} (hc : c ≠ '*' ∧ c ≠ '/') (u v : List Char) :
    blockComment? (u ++ c :: v) =
      (blockComment? u).or ((blockComment? v).map (· + (u.length + 1))) := by
  fun_induction blockComment? u with
  | case1 => simp [blockComment?, hc.1]
  | case2 => simp [blockComment?]
  | case3 x rest hne ih =>
    rw [List.cons_append, blockComment?, ih]
    · cases blockComment? rest <;> cases blockComment? v <;> simp [Nat.add_assoc]
    · intro tail hx htail
      cases rest with
      | nil => exact hc.2 (List.cons.inj htail).1
      | cons z rest =>
        obtain ⟨rfl, _⟩ := List.cons.inj htail
        exact hne rest hx rfl

lemma raw?_append (u v : List Char) :
    raw? (u ++ v) = (raw? u).or ((raw? v).map (· + u.length)) := by
  fun_induction raw? u with
  | case1 => simp
  | case2 => simp [raw?]
  | case3 c rest hc ih =>
    simp only [List.cons_append, raw?, hc, if_false, ih]
    cases raw? rest <;> cases raw? v <;> simp [Nat.add_assoc]

lemma raw?_append_cons {c : Char} (hc : c ≠ '\x60') (u v : List Char) :
    raw? (u ++ c :: v) = (raw? u).or ((raw? v).map (· + (u.length + 1))) := by
  rw [raw?_append, raw?, if_neg hc, Option.map_map]
  congr 2
  funext n
  simp only [Function.comp_apply]
  omega

lemma quoted?_lineFeed {quote : Char} (hq : quote ≠ '\n' ∧ quote ≠ '\\') {u v : List Char}
    {n : Nat} (h : quoted? quote (u ++ '\n' :: v) = some n) : n ≤ u.length := by
  fun_induction quoted? quote u generalizing n with
  | case1 => simp [quoted?, hq.1.symm] at h
  | case2 => simp [quoted?] at h
  | case3 c rest hc ih =>
    simp only [List.cons_append, quoted?, hc, if_false] at h
    obtain ⟨k, hk, rfl⟩ := Option.map_eq_some_iff.1 h
    simpa using ih hk
  | case4 rest =>
    obtain rfl : 1 = n := by simpa [quoted?, hq.2] using h
    simp
  | case5 rest => simp [quoted?, hq.1.symm] at h
  | case6 c rest hne hquote hline ih =>
    by_cases hc : c = '\\'
    · cases rest with
      | nil => simp [hc, quoted?] at h
      | cons x rest => exact absurd rfl (hne x rest hc)
    · simp [quoted?, hc, hquote, hline] at h
      obtain ⟨k, hk, rfl⟩ := h
      simpa using ih hk

lemma eq_append_of_prefix_lineFeed {m b rest : List Char} (hm : m ∈ marks) (hb : b ≠ [])
    (h : m <+: b ++ '\n' :: rest) : ∃ u, b = m ++ u := by
  obtain ⟨c, b, rfl⟩ := List.exists_cons_of_ne_nil hb
  simp only [marks, List.mem_cons, List.not_mem_nil, or_false] at hm
  rcases hm with rfl | rfl | rfl | rfl | rfl <;> cases b <;> simp_all [eq_comm]

lemma or_map_add_eq_some {x? y? : Option Nat} {n k : Nat} (hx : ∀ m, x? = some m → m ≤ k)
    (h : x?.or (y?.map (· + (k + 1))) = some n) :
    n ≤ k ∨ x? = none ∧ ∃ m, y? = some m ∧ n = m + (k + 1) := by
  cases x? with
  | some m =>
    obtain rfl : m = n := by simpa using h
    exact .inl (hx m rfl)
  | none =>
    obtain ⟨m, hm, rfl⟩ := Option.map_eq_some_iff.1 (by simpa using h)
    exact .inr ⟨rfl, m, hm, rfl⟩

/-- A token ends in front of a line feed, or it is a block comment or a raw string that goes on
behind it. -/
theorem token_lineFeed {b : List Char} (hb : b ≠ []) (rest : List Char) :
    (token (b ++ '\n' :: rest)).2 ≤ b.length ∨
      (∃ u n, b = ['/', '*'] ++ u ∧ blockComment? u = none ∧ blockComment? rest = some n ∧
        token (b ++ '\n' :: rest) = (.comment, b.length + 1 + n)) ∨
      ∃ u n, b = ['\x60'] ++ u ∧ raw? u = none ∧ raw? rest = some n ∧
        token (b ++ '\n' :: rest) = (.rawString, b.length + 1 + n) := by
  have hpos : 0 < b.length := List.length_pos_iff.2 hb
  by_cases hm : ∃ m ∈ marks, m <+: b ++ '\n' :: rest
  · obtain ⟨m, hm, hpre⟩ := hm
    obtain ⟨u, rfl⟩ := eq_append_of_prefix_lineFeed hm hb hpre
    simp only [marks, List.mem_cons, List.not_mem_nil, or_false] at hm
    rcases hm with rfl | rfl | rfl | rfl | rfl
    · rw [List.append_assoc, token_lineComment, ← List.append_assoc,
        takeWhile_append_stop (by simp)]
      exact .inl (List.takeWhile_sublist _).length_le
    · rw [List.append_assoc, token_blockComment]
      cases hn : blockComment? (u ++ '\n' :: rest) with
      | none => exact .inl hpos
      | some n =>
        rw [blockComment?_append_cons (by decide)] at hn
        rcases or_map_add_eq_some (fun m h => (blockComment?_take h).2.1) hn with
          hle | ⟨hu, m, hrest, rfl⟩
        · exact .inl (by simp; omega)
        · exact .inr (.inl ⟨u, m, rfl, hu, hrest, by simp; omega⟩)
    · rw [List.append_assoc, token_quotedString]
      cases hn : quoted? '"' (u ++ '\n' :: rest) with
      | none => exact .inl hpos
      | some n => exact .inl (by simpa using quoted?_lineFeed (by decide) hn)
    · rw [List.append_assoc, token_rune]
      cases hn : quoted? '\'' (u ++ '\n' :: rest) with
      | none => exact .inl hpos
      | some n => exact .inl (by simpa using quoted?_lineFeed (by decide) hn)
    · rw [List.append_assoc, token_rawString]
      cases hn : raw? (u ++ '\n' :: rest) with
      | none => exact .inl hpos
      | some n =>
        rw [raw?_append_cons (by decide)] at hn
        rcases or_map_add_eq_some (fun m h => (raw?_take h).2.1) hn with
          hle | ⟨hu, m, hrest, rfl⟩
        · exact .inl (by simpa using hle)
        · exact .inr (.inr ⟨u, m, rfl, hu, hrest, by simp; omega⟩)
  · rw [token_eq_plainToken fun m hmem h => hm ⟨m, hmem, h⟩,
      plainToken_append (by decide) hb]
    exact .inl (length_plainToken_le hb)

end Mend.Go.Scan
