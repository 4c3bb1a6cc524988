import Mend.Json.Skip
import Mend.Proofs.Json.Numbers
import Mend.Proofs.Json.Strings

/-! Every value can be read over, whatever it is: what remains is the text behind it. -/
namespace Mend.Json

/-- Twice its length is fuel enough to read over a text. -/
structure Skips (cs : List Char) : Prop where
  spaced : ∀ {fuel ws rest}, Spaces ws → Ends rest → 2 * cs.length ≤ fuel →
    skipValue fuel (ws ++ cs ++ rest) = .ok rest

variable {cs ws rest : List Char} {fuel : Nat} {c : Char}

/-- What is left to show once the white space is read over. -/
lemma skips_cons (hc : isSpace c = false) (h : ∀ fuel rest, Ends rest → 2 * cs.length ≤ fuel →
    skipValue (fuel + 1) (c :: (cs ++ rest)) = .ok rest) : Skips (c :: cs) := by
  refine ⟨fun {fuel ws rest} hws hrest hfuel => ?_⟩
  rw [List.length_cons] at hfuel
  obtain ⟨fuel, rfl⟩ : ∃ f, fuel = f + 1 := ⟨fuel - 1, by omega⟩
  have hvalue := h fuel rest hrest (by omega)
  rw [skipValue, skipSpace_cons hc] at hvalue
  rw [List.append_assoc, skipValue, skipSpace_append hws, List.cons_append, skipSpace_cons hc]
  exact hvalue

lemma skipValue_digit (hc : c.isDigit = true) (cs : List Char) :
    skipValue (fuel + 1) (c :: cs) = (skipNumber (c :: cs)).map (·.2) := by
  have hne : c ≠ 'n' ∧ c ≠ 't' ∧ c ≠ 'f' ∧ c ≠ '-' := by
    refine ⟨?_, ?_, ?_, ?_⟩ <;> (rintro rfl; cases hc)
  rw [skipValue, skipSpace_cons (isSpace_of_isDigit hc)]
  simp [hne, hc]

lemma Whole.skips {ds fraction exponent : List Char} (hds : Whole ds) (hf : FractionText fraction)
    (he : ExponentText exponent) : Skips (ds ++ fraction ++ exponent) := by
  obtain ⟨d, ds', rfl, hd⟩ := hds.1.head
  change Skips (d :: (ds' ++ fraction ++ exponent))
  refine skips_cons (isSpace_of_isDigit hd) fun fuel rest hrest _ => ?_
  have hnumber := skipNumber_append hds hf he hrest.noNumber
  simp only [List.cons_append] at hnumber
  rw [skipValue_digit hd, hnumber]
  rfl

lemma Skips.written {e : Element} (h : Skips e.text) (he : e.Spaced) (hrest : Ends rest)
    (hfuel : 2 * e.text.length ≤ fuel) :
    skipValue fuel (e.written ++ rest) = .ok (e.after ++ rest) := by
  rw [Element.written, List.append_assoc _ e.after]
  exact h.spaced he.1 (he.2.ends hrest) hfuel

lemma skipElements_texts {es : List Element} (hs : ∀ e ∈ es, e.Spaced)
    (hes : ∀ e ∈ es, Writes e.value e.text) (hskips : ∀ e ∈ es, Skips e.text) (hws : Spaces ws)
    (comma : Bool) (hfuel : 2 * (Element.texts comma es).length ≤ fuel) :
    skipElements fuel comma (ws ++ (Element.texts comma es ++ rest)) = .ok rest := by
  induction es generalizing fuel ws comma with
  | nil =>
    obtain ⟨fuel, rfl⟩ : ∃ f, fuel = f + 1 := ⟨fuel - 1, by simp [Element.texts] at hfuel; omega⟩
    rw [skipElements, Element.skipSpace_nil hws]
    simp
  | cons e es ih =>
    simp only [List.mem_cons, forall_eq_or_imp] at hs hes hskips
    have hpos := hes.1.length_pos
    have hend := Element.length_texts true es
    simp only [Element.texts, Element.written, List.length_append, Bool.toNat_true] at hfuel hend
    obtain ⟨fuel, rfl⟩ : ∃ f, fuel = f + 1 := ⟨fuel - 1, by omega⟩
    have hrest := Element.ends_texts es rest
    have hmore : skipElements fuel true (e.after ++ (Element.texts true es ++ rest)) = _ :=
      ih hs.2 hes.2 hskips.2 hs.1.2 true (by omega)
    cases comma with
    | true =>
      have hvalue : skipValue fuel (e.written ++ _) = .ok _ :=
        hskips.1.written hs.1 hrest (by omega)
      rw [skipElements, Element.skipSpace_comma hws]
      simpa [hvalue] using hmore
    | false =>
      have hvalue : skipValue fuel ([] ++ e.text ++ _) = .ok _ :=
        hskips.1.spaced spaces_nil (hs.1.2.ends hrest) (by omega)
      obtain ⟨c, more, hcs, hc⟩ := hes.1.begins
      rw [List.nil_append, hcs, List.cons_append] at hvalue
      rw [skipElements, Element.skipSpace_first hws, Element.skipSpace_written hs.1 hes.1]
      simp [hcs, hc.ne.2.2.1, hvalue, hmore]

lemma skipKey_append {name? : Option (List Char)} {nameText gap : List Char} (hws : Spaces ws)
    (hname : StringText name? nameText) (hgap : Spaces gap) (rest : List Char) :
    skipKey (ws ++ '"' :: (nameText ++ (gap ++ ':' :: rest))) = .ok rest := by
  have hfuel : nameText.length ≤ (nameText ++ (gap ++ ':' :: rest)).length + 1 := by
    rw [List.length_append]
    omega
  have hcolon : skipSpace (gap ++ ':' :: rest) = ':' :: rest := by
    rw [skipSpace_append hgap, skipSpace_cons (by decide)]
  rw [skipKey, skipSpace_append hws, skipSpace_cons (by decide)]
  simp only [hname.skipString hfuel, hcolon, bind, Except.bind, if_true]

lemma skipMembers_texts {ms : List Member} (hs : ∀ m ∈ ms, m.Spaced)
    (hnames : ∀ m ∈ ms, StringText m.name? m.nameText) (hskips : ∀ m ∈ ms, Skips m.element.text)
    (hws : Spaces ws) (comma : Bool) (hfuel : 2 * (Member.texts comma ms).length ≤ fuel) :
    skipMembers fuel comma (ws ++ (Member.texts comma ms ++ rest)) = .ok rest := by
  induction ms generalizing fuel ws comma with
  | nil =>
    obtain ⟨fuel, rfl⟩ : ∃ f, fuel = f + 1 := ⟨fuel - 1, by simp [Member.texts] at hfuel; omega⟩
    rw [skipMembers, Member.skipSpace_nil hws]
    simp
  | cons m ms ih =>
    simp only [List.mem_cons, forall_eq_or_imp] at hs hnames hskips
    simp only [Member.texts, Member.written, Element.written, List.length_append,
      List.length_cons] at hfuel
    obtain ⟨fuel, rfl⟩ : ∃ f, fuel = f + 1 := ⟨fuel - 1, by omega⟩
    obtain ⟨hbefore, hgap, hspaced⟩ := hs.1
    have hvalue : skipValue fuel (m.element.written ++ _) = .ok _ :=
      hskips.1.written hspaced (Member.ends_texts ms rest) (by omega)
    have hmore : skipMembers fuel true (m.element.after ++ (Member.texts true ms ++ rest)) = _ :=
      ih hs.2 hnames.2 hskips.2 hspaced.2 true (by omega)
    cases comma with
    | true =>
      have hkey := skipKey_append hbefore hnames.1 hgap
        (m.element.written ++ (Member.texts true ms ++ rest))
      rw [skipMembers, Member.skipSpace_comma hws]
      simpa [Member.written, hkey, hvalue] using hmore
    | false =>
      have hkey := skipKey_append spaces_nil hnames.1 hgap
        (m.element.written ++ (Member.texts true ms ++ rest))
      rw [List.nil_append] at hkey
      rw [skipMembers, Member.skipSpace_first hws, Member.skipSpace_written hs.1]
      simp [hkey, hvalue, hmore]

theorem Writes.skips {v : Value} (h : Writes v cs) : Skips cs := by
  induction h with
  | null | yes | no =>
    refine skips_cons (by decide) fun fuel rest _ _ => ?_
    rw [skipValue, skipSpace_cons (by decide)]
    rfl
  | @natural ds hds =>
    have hskips : Skips (ds ++ [] ++ []) := hds.skips (.inl rfl) (.inl rfl)
    rwa [List.append_nil, List.append_nil] at hskips
  | number h =>
    cases h with
    | positive hds hf he hne => exact hds.skips hf he
    | @negative ds fraction exponent hds hf he =>
      change Skips ('-' :: (ds ++ fraction ++ exponent))
      refine skips_cons (by decide) fun fuel rest hrest _ => ?_
      rw [skipValue, skipSpace_cons (by decide)]
      simp only [skipNumber_append hds hf he hrest.noNumber]
      rfl
  | @string s? cs hs =>
    refine skips_cons (by decide) fun fuel rest _ _ => ?_
    have hlength : cs.length ≤ (cs ++ rest).length + 1 := by
      rw [List.length_append]
      omega
    rw [skipValue, skipSpace_cons (by decide)]
    simp only [hs.skipString hlength]
    rfl
  | @list ws es hws hs hes ih =>
    change Skips ('[' :: (ws ++ Element.texts false es))
    refine skips_cons (by decide) fun fuel rest _ hfuel => ?_
    rw [List.length_append] at hfuel
    rw [skipValue, skipSpace_cons (by decide), List.append_assoc]
    exact skipElements_texts hs hes ih hws false (by omega)
  | @object ws ms hws hs hnames hms ih =>
    change Skips ('\x7b' :: (ws ++ Member.texts false ms))
    refine skips_cons (by decide) fun fuel rest _ hfuel => ?_
    rw [List.length_append] at hfuel
    rw [skipValue, skipSpace_cons (by decide), List.append_assoc]
    exact skipMembers_texts hs hnames ih hws false (by omega)

/-- An element is read over up to the white space behind it. -/
theorem Writes.skip_written {e : Element} (h : Writes e.value e.text) (he : e.Spaced)
    (hrest : Ends rest) : skip (e.written ++ rest) = .ok (e.after ++ rest) := by
  refine h.skips.written he hrest ?_
  simp only [Element.written, List.length_append]
  omega

end Mend.Json
