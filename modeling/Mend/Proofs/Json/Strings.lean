import Mend.Proofs.Json.Grammar

/-! Strings are read as they are written: those that are texts give their characters, whatever
escapes they are written with, and all others are errors. -/
namespace Mend.Json

lemma lt_of_hexDigit? {n : Nat} {c : Char} (h : hexDigit? c = some n) : c.toNat < 128 := by
  simp only [hexDigit?, Char.isDigit, Bool.and_eq_true, decide_eq_true_eq, Char.le_def,
    UInt32.le_iff_toNat_le, ge_iff_le] at h
  have h9 : '9'.val.toNat = 57 := rfl
  have hf : 'f'.val.toNat = 102 := rfl
  have hF : 'F'.val.toNat = 70 := rfl
  unfold Char.toNat
  split at h
  · omega
  · split at h
    · omega
    · split at h
      · omega
      · cases h

lemma hexDigit?_eq_some {n : Nat} {c : Char} : hexDigit? c = some n ↔ HexDigit n c := by
  constructor
  · intro h
    have hascii : ∀ k < 128, (hexDigit? (Char.ofNat k)).all fun n => HexDigit n (Char.ofNat k) := by
      decide +kernel
    have hc := hascii c.toNat (lt_of_hexDigit? h)
    rw [Char.ofNat_toNat, h] at hc
    simpa using hc
  · intro h
    have hall : ∀ p ∈ lowerHex.zipIdx ++ upperHex.zipIdx, hexDigit? p.1 = some p.2 := by decide
    exact hall (c, n) (by simpa [HexDigit, List.mk_mem_zipIdx_iff_getElem?] using h)

variable {n : Nat} {c : Char} {ds cs rest : List Char}

lemma HexText.hexEscape (h : HexText n ds) (rest : List Char) :
    Json.hexEscape (ds ++ rest) = .ok (n, rest) := by
  obtain ⟨h₁, h₂, h₃, h₄⟩ := h
  simp [Json.hexEscape, hexDigit?_eq_some.2 h₁, hexDigit?_eq_some.2 h₂, hexDigit?_eq_some.2 h₃,
    hexDigit?_eq_some.2 h₄]

lemma hexText_of_mapM {n₁ n₂ n₃ n₄ : Nat} (h : ds.mapM hexDigit? = some [n₁, n₂, n₃, n₄]) :
    HexText (((n₁ * 16 + n₂) * 16 + n₃) * 16 + n₄) ds := by
  match ds with
  | [d₁, d₂, d₃, d₄] =>
    obtain ⟨h₁, h₂, h₃, h₄⟩ : hexDigit? d₁ = some n₁ ∧ hexDigit? d₂ = some n₂ ∧
        hexDigit? d₃ = some n₃ ∧ hexDigit? d₄ = some n₄ := by
      simpa [Option.bind_eq_some_iff] using h
    exact .digits (hexDigit?_eq_some.1 h₁) (hexDigit?_eq_some.1 h₂) (hexDigit?_eq_some.1 h₃)
      (hexDigit?_eq_some.1 h₄)
  | [] | [_] | [_, _] | [_, _, _] | _ :: _ :: _ :: _ :: _ :: _ =>
    simp [Option.bind_eq_some_iff] at h

lemma hexText_of_hexEscape (h : hexEscape cs = .ok (n, rest)) :
    ∃ ds, HexText n ds ∧ cs = ds ++ rest := by
  unfold hexEscape at h
  split at h
  · rename_i hdigits
    obtain ⟨rfl, rfl⟩ := Prod.mk.inj (Except.ok.inj h)
    exact ⟨cs.take 4, hexText_of_mapM hdigits, (List.take_append_drop 4 cs).symm⟩
  · split at h <;> cases h

lemma simpleEscape?_of_mem {e : Char} (h : (e, c) ∈ shortEscapes) :
    e ≠ 'u' ∧ simpleEscape? e = some c := by
  simp only [shortEscapes, List.mem_cons, Prod.mk.injEq, List.not_mem_nil, or_false] at h
  rcases h with ⟨rfl, rfl⟩ | ⟨rfl, rfl⟩ | ⟨rfl, rfl⟩ | ⟨rfl, rfl⟩ | ⟨rfl, rfl⟩ | ⟨rfl, rfl⟩ |
    ⟨rfl, rfl⟩ | ⟨rfl, rfl⟩ <;> exact ⟨by decide, rfl⟩

/-- A character is none of the surrogates. -/
lemma toNat_not_surrogate (c : Char) : c.toNat < 0xd800 ∨ 0xdfff < c.toNat := by
  rcases c.valid with h | h
  · exact .inl h
  · exact .inr h.1

lemma unicodeEscape_unit (h : HexText c.toNat ds) (rest : List Char) :
    unicodeEscape (ds ++ rest) = .ok (c, rest) := by
  have hc := toNat_not_surrogate c
  have hlow : ¬ (0xdc00 ≤ c.toNat ∧ c.toNat ≤ 0xdfff) := by omega
  have hout : c.toNat < 0xd800 ∨ 0xdbff < c.toNat := by omega
  simp only [unicodeEscape, h.hexEscape rest, bind, Except.bind]
  simp [hlow, hout, Char.ofNat_toNat]

lemma unicodeEscape_pair {high low : Nat} {es : List Char} (hhigh : HexText high ds)
    (hlow : HexText low es) (hhigh' : 0xd800 ≤ high ∧ high < 0xdc00)
    (hlow' : 0xdc00 ≤ low ∧ low < 0xe000)
    (hc : c.toNat = (high - 0xd800) * 0x400 + (low - 0xdc00) + 0x10000) (rest : List Char) :
    unicodeEscape (ds ++ '\\' :: 'u' :: (es ++ rest)) = .ok (c, rest) := by
  have h₁ : ¬ (0xdc00 ≤ high ∧ high ≤ 0xdfff) := by omega
  have h₂ : ¬ (high < 0xd800 ∨ 0xdbff < high) := by omega
  have h₃ : ¬ (low < 0xdc00 ∨ 0xdfff < low) := by omega
  simp only [unicodeEscape, hhigh.hexEscape, bind, Except.bind, hlow.hexEscape rest]
  simp [h₁, h₂, h₃, ← hc, Char.ofNat_toNat]

lemma unicodeEscape_half (h : HexText n ds) (hn : 0xd800 ≤ n ∧ n < 0xe000)
    (hnext : n < 0xdc00 → ¬ LowHalf cs) : ∃ e, unicodeEscape (ds ++ cs) = .error e := by
  simp only [unicodeEscape, h.hexEscape, bind, Except.bind]
  by_cases hlow : 0xdc00 ≤ n
  · exact ⟨.loneSurrogate, by simp [hlow]; omega⟩
  · have h₁ : ¬ (0xdc00 ≤ n ∧ n ≤ 0xdfff) := by omega
    have h₂ : ¬ (n < 0xd800 ∨ 0xdbff < n) := by omega
    simp only [Bool.and_eq_true, Bool.or_eq_true, decide_eq_true_eq, if_neg h₁, if_neg h₂]
    split
    · exact ⟨_, rfl⟩
    · rename_i rest
      cases hhex : hexEscape rest with
      | error e => exact ⟨e, rfl⟩
      | ok x =>
        obtain ⟨low, rest'⟩ := x
        obtain ⟨es, hes, rfl⟩ := hexText_of_hexEscape hhex
        have hout : low < 0xdc00 ∨ 0xdfff < low := Classical.byContradiction fun hin =>
          hnext (by omega) ⟨low, es, rest', hes, by omega, rfl⟩
        exact ⟨.loneSurrogate, by simp [hout]⟩
    · exact ⟨_, rfl⟩
    · exact ⟨_, rfl⟩

lemma HexText.length (h : HexText n ds) : ds.length = 4 := by
  cases h
  rfl

/-- What stands behind a string does not change what its next escape is. -/
lemma StringText.lowHalf {s? : Option (List Char)} (h : StringText s? cs)
    (hlow : LowHalf (cs ++ rest)) : LowHalf cs := by
  obtain ⟨low, es, more, hes, hrange, heq⟩ := hlow
  have hsame {ds tail : List Char} (hds : ds.length = 4)
      (h : '\\' :: 'u' :: ds ++ tail ++ rest = '\\' :: 'u' :: es ++ more) :
      LowHalf ('\\' :: 'u' :: ds ++ tail) := by
    simp only [List.cons_append, List.cons.injEq, true_and, List.append_assoc] at h
    obtain ⟨rfl, _⟩ := List.append_inj h (hds.trans hes.length.symm)
    exact ⟨low, ds, tail, hes, hrange, rfl⟩
  cases h with
  | close => simp at heq
  | char hc hs =>
    cases hc with
    | plain _ hslash _ => simp [hslash] at heq
    | short he =>
      rw [List.append_assoc] at heq
      simp only [List.cons_append, List.cons.injEq, true_and] at heq
      obtain ⟨rfl, _⟩ := heq
      exact absurd rfl (simpleEscape?_of_mem he).1
    | unit hds => exact hsame hds.length heq
    | pair hds _ _ _ _ =>
      rw [List.append_assoc] at heq ⊢
      exact hsame hds.length (by simpa using heq)
  | half hds _ _ _ => exact hsame hds.length heq

/-- Most strings may be written as they are. -/
lemma StringText.plain {s : List Char} (h : ∀ c ∈ s, c ≠ '"' ∧ c ≠ '\\' ∧ ' ' ≤ c) :
    StringText (some s) (s ++ ['"']) := by
  induction s with
  | nil => exact .close
  | cons c s ih =>
    simp only [List.mem_cons, forall_eq_or_imp] at h
    exact .char (.plain h.1.1 h.1.2.1 h.1.2.2) (ih h.2)

/-- One step reads a character, however it is written. -/
lemma CharText.stringBody_append {p : List Char} (h : CharText c p) (fuel : Nat) (cs : List Char) :
    Json.stringBody (fuel + 1) (p ++ cs) =
      (Json.stringBody fuel cs).map fun x => (c :: x.1, x.2) := by
  cases h with
  | plain hquote hslash hcontrol =>
    have hcontrol : ¬ c < ' ' := by simpa using hcontrol
    cases hcs : Json.stringBody fuel cs <;>
      simp [Json.stringBody, hquote, hslash, hcontrol, hcs, bind, Except.bind, Except.map]
  | @short e h =>
    obtain ⟨hu, he⟩ := simpleEscape?_of_mem h
    have hslash : ('\\' = '"') = False := by simp
    simp only [List.cons_append, List.nil_append, Json.stringBody, hslash, if_false, if_true]
    rw [he]
    cases Json.stringBody fuel cs <;> rfl
  | unit h =>
    have hescape := unicodeEscape_unit h cs
    cases hcs : Json.stringBody fuel cs <;>
      simp [Json.stringBody, hescape, hcs, bind, Except.bind, Except.map]
  | pair hhigh hlow hhigh' hlow' hc =>
    have hescape := unicodeEscape_pair hhigh hlow hhigh' hlow' hc cs
    cases hcs : Json.stringBody fuel cs <;>
      simp [Json.stringBody, hescape, hcs, bind, Except.bind, Except.map]

/-- Strings that are texts are read, and all others are refused. -/
theorem StringText.stringBody {s? : Option (List Char)} (h : StringText s? cs) {fuel : Nat}
    (hf : cs.length ≤ fuel) (rest : List Char) :
    (∀ s, s? = some s → Json.stringBody fuel (cs ++ rest) = .ok (s, rest)) ∧
      (s? = none → ∃ e, Json.stringBody fuel (cs ++ rest) = .error e) := by
  induction h generalizing fuel with
  | close =>
    obtain ⟨fuel, rfl⟩ : ∃ f, fuel = f + 1 := ⟨fuel - 1, by simp at hf; omega⟩
    refine ⟨fun s hs => ?_, nofun⟩
    obtain rfl := Option.some.inj hs
    simp [Json.stringBody]
  | @char c s? p cs hc hs ih =>
    have hpos : 0 < p.length := by cases hc <;> simp
    obtain ⟨fuel, rfl⟩ : ∃ f, fuel = f + 1 := ⟨fuel - 1, by simp at hf; omega⟩
    have hfuel : cs.length ≤ fuel := by
      simp only [List.length_append] at hf
      omega
    obtain ⟨hok, herror⟩ := ih hfuel
    rw [List.append_assoc, hc.stringBody_append]
    cases s? with
    | none =>
      obtain ⟨e, he⟩ := herror rfl
      exact ⟨nofun, fun _ => ⟨e, by rw [he]; rfl⟩⟩
    | some t =>
      refine ⟨fun s hs => ?_, nofun⟩
      obtain rfl : c :: t = s := by simpa using hs
      rw [hok t rfl]
      rfl
  | @half n s? ds cs h hn hnext hs ih =>
    refine ⟨nofun, fun _ => ?_⟩
    obtain ⟨fuel, rfl⟩ : ∃ f, fuel = f + 1 := ⟨fuel - 1, by simp at hf; omega⟩
    have hnext : n < 0xdc00 → ¬ LowHalf (cs ++ rest) := fun hlt hlow => hnext hlt (hs.lowHalf hlow)
    obtain ⟨e, he⟩ := unicodeEscape_half h hn hnext
    refine ⟨e, ?_⟩
    rw [List.append_assoc]
    simp [Json.stringBody, he, bind, Except.bind]

theorem StringText.string {s? : Option (List Char)} (h : StringText s? cs) (rest : List Char) :
    (∀ s, s? = some s → Json.string (cs ++ rest) = .ok (String.ofList s, rest)) ∧
      (s? = none → ∃ e, Json.string (cs ++ rest) = .error e) := by
  have hf : cs.length ≤ (cs ++ rest).length + 1 := by
    rw [List.length_append]
    omega
  obtain ⟨hok, herror⟩ := h.stringBody hf rest
  constructor
  · intro s hs
    rw [Json.string, hok s hs]
    rfl
  · intro hs
    obtain ⟨e, he⟩ := herror hs
    rw [Json.string, he]
    exact ⟨e, rfl⟩

/-- An escape of four digits is read over in one step, whatever it means. -/
lemma HexText.skipString_append {n : Nat} {ds : List Char} (h : HexText n ds) (fuel : Nat)
    (cs : List Char) :
    Json.skipString (fuel + 1) ('\\' :: 'u' :: (ds ++ cs)) = Json.skipString fuel cs := by
  simp [Json.skipString, h.hexEscape, bind, Except.bind]

/-- A character is read over in one step, or in two if it is written as a surrogate pair. -/
lemma CharText.skipString_append {p : List Char} (h : CharText c p) :
    ∃ k, 0 < k ∧ k ≤ p.length ∧ ∀ fuel (cs : List Char),
      Json.skipString (fuel + k) (p ++ cs) = Json.skipString fuel cs := by
  cases h with
  | plain hquote hslash hcontrol =>
    refine ⟨1, by simp, by simp, fun fuel cs => ?_⟩
    have hcontrol : ¬ c < ' ' := by simpa using hcontrol
    simp [Json.skipString, hquote, hslash, hcontrol]
  | @short e h =>
    refine ⟨1, by simp, by simp, fun fuel cs => ?_⟩
    obtain ⟨hu, he⟩ := simpleEscape?_of_mem h
    have hslash : ('\\' = '"') = False := by simp
    simp only [List.cons_append, List.nil_append, Json.skipString, hslash, if_false, if_true]
    rw [he]
    rfl
  | unit h => exact ⟨1, by simp, by simp, fun fuel cs => h.skipString_append fuel cs⟩
  | pair hhigh hlow _ _ _ =>
    refine ⟨2, by simp, by simp, fun fuel cs => ?_⟩
    rw [List.append_assoc]
    exact (hhigh.skipString_append _ _).trans (hlow.skipString_append fuel cs)

/-- Every string can be read over, be it a text or not. -/
theorem StringText.skipString {s? : Option (List Char)} (h : StringText s? cs) {fuel : Nat}
    (hf : cs.length ≤ fuel) (rest : List Char) :
    Json.skipString fuel (cs ++ rest) = .ok ((), rest) := by
  induction h generalizing fuel with
  | close =>
    obtain ⟨fuel, rfl⟩ : ∃ f, fuel = f + 1 := ⟨fuel - 1, by simp at hf; omega⟩
    simp [Json.skipString]
  | char hc _ ih =>
    obtain ⟨k, hpos, hk, hstep⟩ := hc.skipString_append
    rw [List.length_append] at hf
    obtain ⟨fuel, rfl⟩ : ∃ f, fuel = f + k := ⟨fuel - k, by omega⟩
    rw [List.append_assoc, hstep]
    exact ih (by omega)
  | half h _ _ _ ih =>
    obtain ⟨fuel, rfl⟩ : ∃ f, fuel = f + 1 := ⟨fuel - 1, by simp at hf; omega⟩
    rw [List.append_assoc]
    refine (h.skipString_append fuel _).trans (ih ?_)
    simp at hf
    omega

end Mend.Json
