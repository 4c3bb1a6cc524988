import Mend.Json.Typed
import Mend.Proofs.Json.Grammar

/-! Numbers are read as they are written: plain digits give a natural number as long as that has at
most 64 bits, and every other number gives no natural number at all. -/
namespace Mend.Json

variable {ds cs rest fraction exponent : List Char} {n : Nat}

/-- Where a run of digits stops. -/
def NoDigit (rest : List Char) : Prop := rest.head?.any Char.isDigit = false

/-- Where a number stops. -/
structure NoNumber (rest : List Char) : Prop where
  digit : NoDigit rest
  mark : ∀ c ∈ rest.head?, c ≠ '.' ∧ c ≠ 'e' ∧ c ≠ 'E'

lemma Ends.noNumber (h : Ends rest) : NoNumber rest := by
  have hhead : ∀ c ∈ rest.head?, c.isDigit = false ∧ c ≠ '.' ∧ c ≠ 'e' ∧ c ≠ 'E' := by
    intro c hc
    have hc : c = ',' ∨ c = ']' ∨ c = '\x7d' ∨ c = ' ' ∨ c = '\n' ∨ c = '\t' ∨ c = '\r' := by
      simpa [isSpace, or_assoc] using h c hc
    rcases hc with rfl | rfl | rfl | rfl | rfl | rfl | rfl <;> decide
  refine ⟨?_, fun c hc => (hhead c hc).2⟩
  cases rest with
  | nil => rfl
  | cons c rest => simpa [NoDigit] using (hhead c rfl).1

lemma dropWhile_digits (hds : ∀ d ∈ ds, d.isDigit = true) (hrest : NoDigit rest) :
    (ds ++ rest).dropWhile Char.isDigit = rest := by
  rw [List.dropWhile_append_of_pos hds]
  cases rest with
  | nil => rfl
  | cons c rest =>
    have hc : c.isDigit = false := by simpa [NoDigit] using hrest
    simp [hc]

/-- A natural number is zero or starts with another digit. -/
lemma Whole.cases (h : Whole ds) :
    ds = ['0'] ∨ ∃ d ds', ds = d :: ds' ∧ d.isDigit = true ∧ d ≠ '0' := by
  obtain ⟨d, ds', rfl, hd⟩ := h.1.head
  by_cases hzero : d = '0'
  · exact .inl (h.2 (by simp [hzero]))
  · exact .inr ⟨d, ds', rfl, hd, hzero⟩

lemma ExponentText.skip (he : ExponentText exponent) (hrest : NoNumber rest) :
    skipEndOfNumber (exponent ++ rest) = .ok ((), rest) := by
  rcases he with rfl | ⟨e, sign, es, rfl, he, hsign, hes⟩
  · cases rest with
    | nil => rfl
    | cons c rest =>
      obtain ⟨_, he, hE⟩ := hrest.mark c rfl
      simp [skipEndOfNumber, he, hE]
  · obtain ⟨d, es', rfl, hd⟩ := hes.head
    have hexponent : skipExponent (sign ++ (d :: es' ++ rest)) = .ok ((), rest) := by
      have hdrop := dropWhile_digits hes.2 hrest.digit
      rcases hsign with rfl | rfl | rfl
      · have hplus : d ≠ '+' := by rintro rfl; simp at hd
        have hminus : d ≠ '-' := by rintro rfl; simp at hd
        simpa [skipExponent, hplus, hminus, hd] using hdrop
      · simpa [skipExponent, hd] using hdrop
      · simpa [skipExponent, hd] using hdrop
    rcases he with rfl | rfl <;> simpa [skipEndOfNumber] using hexponent

lemma ExponentText.noDigit (he : ExponentText exponent) (hrest : NoNumber rest) :
    NoDigit (exponent ++ rest) := by
  rcases he with rfl | ⟨e, sign, es, rfl, rfl | rfl, _⟩
  · exact hrest.digit
  · simp [NoDigit]
  · simp [NoDigit]

lemma FractionText.skip (hf : FractionText fraction) (he : ExponentText exponent)
    (hrest : NoNumber rest) :
    skipFraction (fraction ++ exponent ++ rest) = .ok ((), rest) := by
  have hend := he.skip hrest
  rcases hf with rfl | ⟨fs, rfl, hfs⟩
  · have hpoint : ∀ more, exponent ++ rest ≠ '.' :: more := by
      rcases he with rfl | ⟨e, sign, es, rfl, rfl | rfl, _⟩
      · rintro more rfl
        exact (hrest.mark '.' rfl).1 rfl
      · simp
      · simp
    rw [List.nil_append, skipFraction]
    · exact hend
    · exact hpoint
  · have hdrop := dropWhile_digits hfs.2 (he.noDigit hrest)
    obtain ⟨d, fs', rfl, hd⟩ := hfs.head
    simp only [List.cons_append] at hdrop
    simp [skipFraction, hd, hdrop, hend]

lemma FractionText.noDigit (hf : FractionText fraction) (he : ExponentText exponent)
    (hrest : NoNumber rest) : NoDigit (fraction ++ exponent ++ rest) := by
  rcases hf with rfl | ⟨fs, rfl, _⟩
  · exact he.noDigit hrest
  · simp [NoDigit]

/-- A number can be read over, whatever its value is. -/
theorem skipNumber_append (hds : Whole ds) (hf : FractionText fraction)
    (he : ExponentText exponent) (hrest : NoNumber rest) :
    skipNumber (ds ++ fraction ++ exponent ++ rest) = .ok ((), rest) := by
  have hskip := hf.skip he hrest
  have hno := hf.noDigit he hrest
  have hdrop := dropWhile_digits hds.1.2 hno
  rw [List.append_assoc, List.append_assoc, ← List.append_assoc fraction]
  generalize fraction ++ exponent ++ rest = tail at hskip hno hdrop ⊢
  obtain rfl | ⟨d, ds', rfl, hd, hzero⟩ := hds.cases
  · rw [NoDigit] at hno
    simpa [skipNumber, hno] using hskip
  · rw [List.cons_append] at hdrop
    simp [skipNumber, hd, hdrop, hskip]

@[simp] lemma decimalFrom_nil (n : Nat) : decimalFrom n [] = n := rfl

@[simp] lemma decimalFrom_cons (n : Nat) (d : Char) (ds : List Char) :
    decimalFrom n (d :: ds) = decimalFrom (n * 10 + digit d) ds := by
  simp only [decimalFrom, List.foldl_cons]

lemma le_decimalFrom (n : Nat) (ds : List Char) : n ≤ decimalFrom n ds := by
  induction ds generalizing n with
  | nil => exact Nat.le_refl n
  | cons d ds ih =>
    rw [decimalFrom_cons]
    exact Nat.le_trans (by omega) (ih (n * 10 + digit d))

/-- Digits are taken as long as the number they write stays exact. -/
lemma significand_append (hds : ∀ d ∈ ds, d.isDigit = true) (hrest : NoDigit rest) (n : Nat) :
    (decimalFrom n ds ≤ maxNatural → significand n (ds ++ rest) = (decimalFrom n ds, rest)) ∧
      (maxNatural < decimalFrom n ds → n ≤ maxNatural →
        ((significand n (ds ++ rest)).2.head?.any Char.isDigit) = true) := by
  induction ds generalizing n with
  | nil =>
    refine ⟨fun _ => ?_, fun hlt hle => absurd hlt (Nat.not_lt.2 hle)⟩
    cases rest with
    | nil => rfl
    | cons c rest =>
      have hc : c.isDigit = false := by simpa [NoDigit] using hrest
      simp [significand, hc]
  | cons d ds ih =>
    have hd : d.isDigit = true := hds d (by simp)
    have ih := ih (fun d hd => hds d (by simp [hd])) (n * 10 + digit d)
    rw [decimalFrom_cons]
    by_cases hfit : n * 10 + digit d ≤ maxNatural
    · simp only [List.cons_append, significand, hd, hfit, decide_true, Bool.and_self, if_true]
      exact ⟨ih.1, fun hlt _ => ih.2 hlt hfit⟩
    · have hlt := Nat.lt_of_lt_of_le (Nat.lt_of_not_le hfit) (le_decimalFrom _ ds)
      exact ⟨fun hle => absurd hlt (Nat.not_lt.2 hle), fun _ _ => by simp [significand, hd, hfit]⟩

/-- A reading of a number that does not give a natural number. -/
def NotNatural (r : Except Error (Number × List Char)) : Prop :=
  ∀ n rest, r ≠ .ok (.natural n, rest)

lemma notNatural_error (e : Error) : NotNatural (.error e) := nofun

lemma notNatural_float (x : Float) (rest : List Char) : NotNatural (.ok (.float x, rest)) := nofun

lemma notNatural_floatOf (isNegative : Bool) (n : Nat) (e : Int) (rest : List Char) :
    NotNatural (floatOf isNegative n e rest) := by
  unfold floatOf
  cases scale (e.natAbs / 308 + 2) n.toUInt64.toFloat e with
  | error e => exact notNatural_error e
  | ok x => exact notNatural_float _ rest

lemma notNatural_exponentPart (isNegative : Bool) (n : Nat) (e : Int) (cs : List Char) :
    NotNatural (exponentPart isNegative n e cs) := by
  unfold exponentPart
  simp only
  -- one case for each sign in front of the exponent
  repeat' split
  all_goals
    first
    | exact notNatural_error _
    | exact notNatural_float _ _
    | exact notNatural_floatOf _ _ _ _

lemma notNatural_endOfNumber (isNegative : Bool) (n : Nat) (e : Int) (cs : List Char) :
    NotNatural (endOfNumber isNegative n e cs) := by
  unfold endOfNumber
  split
  · split
    · exact notNatural_exponentPart _ _ _ _
    · exact notNatural_floatOf _ _ _ _
  · exact notNatural_floatOf _ _ _ _

lemma notNatural_fractionPart (isNegative : Bool) (n : Nat) (e : Int) (cs : List Char) :
    NotNatural (fractionPart isNegative n e cs) := by
  unfold fractionPart
  simp only
  split
  · split
    · exact notNatural_endOfNumber _ _ _ _
    · split
      · exact notNatural_error _
      · exact notNatural_endOfNumber _ _ _ _
  · split
    · exact notNatural_error _
    · exact notNatural_endOfNumber _ _ _ _

/-- What has a sign is no natural number, be it zero. -/
lemma notNatural_negative (cs : List Char) : NotNatural (number true cs) := by
  have htail (n : Nat) (cs : List Char) : NotNatural (numberTail true n cs) := by
    unfold numberTail
    simp only [if_true]
    split
    · exact notNatural_fractionPart _ _ _ _
    · split
      · exact notNatural_exponentPart _ _ _ _
      · split <;> exact nofun
    · split <;> exact nofun
  unfold number
  split
  · exact notNatural_error _
  · split
    · exact notNatural_error _
    · exact htail _ _
  · split
    · simp only
      split
      · split
        · exact notNatural_fractionPart _ _ _ _
        · exact notNatural_endOfNumber _ _ _ _
      · exact htail _ _
    · exact notNatural_error _

/-- A number that does not start with a zero and stays exact. -/
lemma number_cons {d : Char} (hd : d.isDigit = true) (hzero : d ≠ '0') {cs rest : List Char}
    {n : Nat} (hsig : significand 0 (d :: cs) = (n, rest)) (hrest : NoDigit rest) :
    number false (d :: cs) = numberTail false n rest := by
  rw [NoDigit] at hrest
  rw [number]
  · simp [hd, hsig, hrest]
  · exact hzero

/-- A number whose digits are more than can be exact. -/
lemma notNatural_cons {d : Char} (hd : d.isDigit = true) (hzero : d ≠ '0') {cs : List Char}
    (h : (significand 0 (d :: cs)).2.head?.any Char.isDigit = true) :
    NotNatural (number false (d :: cs)) := by
  rw [number]
  · simp only [hd, if_true, h]
    split
    · exact notNatural_fractionPart _ _ _ _
    · exact notNatural_endOfNumber _ _ _ _
  · exact hzero

/-- What has a fraction or an exponent is no natural number, be it whole. -/
lemma notNatural_marked {mark : Char} {more : List Char}
    (hmark : mark = '.' ∨ mark = 'e' ∨ mark = 'E') (hds : Whole ds) :
    NotNatural (number false (ds ++ mark :: more)) := by
  have htail (n : Nat) : NotNatural (numberTail false n (mark :: more)) := by
    rcases hmark with rfl | rfl | rfl
    · exact notNatural_fractionPart _ _ _ _
    · exact notNatural_exponentPart _ _ _ _
    · exact notNatural_exponentPart _ _ _ _
  have hmore : NoDigit (mark :: more) := by
    rcases hmark with rfl | rfl | rfl <;> rfl
  obtain ⟨hsmall, hlarge⟩ := significand_append hds.1.2 hmore 0
  obtain rfl | ⟨d, ds', rfl, hd, hzero⟩ := hds.cases
  · rw [List.singleton_append, number, if_neg (Bool.eq_false_iff.1 hmore)]
    exact htail 0
  · by_cases hle : decimalFrom 0 (d :: ds') ≤ maxNatural
    · exact number_cons hd hzero (hsmall hle) hmore ▸ htail _
    · exact notNatural_cons hd hzero (hlarge (by omega) (by omega))

/-- Digits that write more than 64 bits are no natural number. -/
lemma notNatural_large (hds : Whole ds) (hrest : NoDigit rest) (hlarge : maxNatural < decimal ds) :
    NotNatural (number false (ds ++ rest)) := by
  have hsig := (significand_append hds.1.2 hrest 0).2 hlarge (Nat.zero_le _)
  obtain rfl | ⟨d, ds', rfl, hd, hzero⟩ := hds.cases
  · cases hlarge
  · exact notNatural_cons hd hzero hsig

lemma number_append (hds : Whole ds) (hrest : NoNumber rest) (hsmall : decimal ds ≤ maxNatural) :
    number false (ds ++ rest) = .ok (.natural (decimal ds), rest) := by
  have htail (n : Nat) : numberTail false n rest = .ok (.natural n, rest) := by
    cases rest with
    | nil => rfl
    | cons c rest =>
      obtain ⟨hpoint, he, hE⟩ := hrest.mark c rfl
      rw [numberTail]
      · simp [he, hE]
      · exact hpoint
  have hsig := (significand_append hds.1.2 hrest.digit 0).1 hsmall
  obtain rfl | ⟨d, ds', rfl, hd, hzero⟩ := hds.cases
  · rw [List.singleton_append, number, if_neg (Bool.eq_false_iff.1 hrest.digit)]
    exact htail 0
  · exact (number_cons hd hzero hsig hrest.digit).trans (htail _)

end Mend.Json
