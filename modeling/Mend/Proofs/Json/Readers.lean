import Mathlib.Data.List.Forall2
import Mend.Proofs.Json.Numbers
import Mend.Proofs.Json.Strings

/-! What readers make of values. A reader reads just the values that mean something to it: those
give what they mean, however they are written, and all others are errors. -/
namespace Mend.Json

variable {α β : Type}

/-- What a computation gives in front of the text `rest`: the one `a` that `M` holds of, or an error
where `M` holds of none. -/
def Gives (r : Except Error (α × List Char)) (rest : List Char) (M : α → Prop) : Prop :=
  (∃ a, (∀ b, M b ↔ b = a) ∧ r = .ok (a, rest)) ∨ (∀ a, ¬ M a) ∧ ∃ e, r = .error e

namespace Gives

variable {r : Except Error (α × List Char)} {rest rest' : List Char} {M M' : α → Prop}

lemma ok (a : α) (rest : List Char) : Gives (.ok (a, rest)) rest fun b => b = a :=
  .inl ⟨a, fun _ => Iff.rfl, rfl⟩

lemma error (h : ∃ e, r = .error e) (hM : ∀ a, ¬ M a) : Gives r rest M := .inr ⟨hM, h⟩

lemma congr (h : Gives r rest M) (hM : ∀ a, M' a ↔ M a) : Gives r rest M' := by
  obtain rfl : M' = M := funext fun a => propext (hM a)
  exact h

lemma bind {N : α → β → Prop} {f : α × List Char → Except Error (β × List Char)}
    (h : Gives r rest M) (hf : ∀ a, M a → Gives (f (a, rest)) rest' (N a)) :
    Gives (r >>= f) rest' fun b => ∃ a, M a ∧ N a b := by
  rcases h with ⟨a, ha, rfl⟩ | ⟨hnone, e, rfl⟩
  · refine (hf a ((ha a).2 rfl)).congr fun b => ?_
    simp only [ha, exists_eq_left]
  · exact .error ⟨e, rfl⟩ fun b ⟨a, ha, _⟩ => hnone a ha

lemma map (h : Gives r rest M) (f : α → β) :
    Gives (r.map fun x => (f x.1, x.2)) rest fun b => ∃ a, M a ∧ f a = b := by
  rcases h with ⟨a, ha, rfl⟩ | ⟨hnone, e, rfl⟩
  · exact .inl ⟨f a, fun b => by simp only [ha, exists_eq_left, eq_comm (a := b)], rfl⟩
  · exact .error ⟨e, rfl⟩ fun b ⟨a, ha, _⟩ => hnone a ha

end Gives

/-- A reader gives what a value means by `M`, and stops behind the value. -/
structure Reads (R : Reader α) (M : Value → α → Prop) : Prop where
  spaced : ∀ {v cs ws rest}, Writes v cs → Spaces ws → Ends rest →
    Gives (R (ws ++ cs ++ rest)) rest (M v)

lemma Reads.gives {R : Reader α} {M : Value → α → Prop} (hR : Reads R M) {v : Value}
    {cs rest : List Char} (h : Writes v cs) (hrest : Ends rest) :
    Gives (R (cs ++ rest)) rest (M v) := hR.spaced h spaces_nil hrest

lemma Reads.written {R : Reader α} {M : Value → α → Prop} (hR : Reads R M) {e : Element}
    (h : Writes e.value e.text) (he : e.Spaced) {rest : List Char} (hrest : Ends rest) :
    Gives (R (e.written ++ rest)) (e.after ++ rest) (M e.value) := by
  rw [Element.written, List.append_assoc _ e.after]
  exact hR.spaced h he.1 (he.2.ends hrest)

lemma Reads.map {R : Reader α} {M : Value → α → Prop} (hR : Reads R M) (f : α → β) :
    Reads (fun cs => (R cs).map fun x => (f x.1, x.2)) fun v b => ∃ a, M v a ∧ f a = b :=
  ⟨fun h hws hrest => (hR.spaced h hws hrest).map f⟩

lemma Reads.congr {R : Reader α} {M M' : Value → α → Prop} (hR : Reads R M)
    (hM : ∀ v a, M' v a ↔ M v a) : Reads R M' :=
  ⟨fun h hws hrest => (hR.spaced h hws hrest).congr (hM _)⟩

lemma bind_error {x : Except Error α} {f : α → Except Error β} (h : ∀ a, ∃ e, f a = .error e) :
    ∃ e, (x >>= f) = .error e := by
  cases x with
  | error e => exact ⟨e, rfl⟩
  | ok a => exact h a

/-- What is not what is expected is an error in any case. -/
lemma mismatch_error (expected : String) (cs : List Char) :
    ∃ e, mismatch (α := α) expected cs = .error e := by
  unfold mismatch
  simp only
  split
  · exact ⟨_, rfl⟩
  · repeat' split
    all_goals
      first
      | exact ⟨_, rfl⟩
      | exact bind_error fun _ => ⟨_, rfl⟩

/-- A text means its characters. -/
def Value.IsText (v : Value) (s : String) : Prop := v = .string (some s.toList)

theorem reads_text : Reads text Value.IsText := by
  refine ⟨fun {v cs ws rest} h hws hrest => ?_⟩
  have hskip := h.skipSpace_append hws rest
  obtain ⟨c, more, hcs, hc⟩ := h.begins
  cases h with
  | @string s? cs hs =>
    rw [text, hskip]
    obtain ⟨hok, herror⟩ := hs.string rest
    cases s? with
    | some s =>
      refine .inl ⟨String.ofList s, fun t => ?_, hok s rfl⟩
      simp only [Value.IsText, Value.string.injEq, Option.some.injEq]
      exact ⟨fun h => by rw [h, String.ofList_toList], fun h => by rw [h, String.toList_ofList]⟩
    | none => exact .error (herror rfl) (by simp [Value.IsText])
  | _ =>
    have hquote : c ≠ '"' := by
      rintro rfl
      simp [Value.Begins] at hc
    refine .error ?_ (by simp [Value.IsText])
    rw [text, hskip, hcs]
    split
    · exact absurd (List.cons.inj ‹_›).1 hquote
    · exact mismatch_error _ _

section Natural

variable {cs more rest : List Char} {d : Char} {n : Nat}

lemma natural_of_number (name : String) (hskip : skipSpace cs = d :: more) (hd : d.isDigit = true)
    (hnumber : number false (d :: more) = .ok (.natural n, rest)) :
    natural name cs = .ok (n, rest) := by
  unfold natural
  rw [hskip]
  split
  · obtain ⟨rfl, _⟩ := List.cons.inj ‹_›
    cases hd
  · obtain ⟨rfl, rfl⟩ := List.cons.inj ‹_›
    simp [hd, hnumber, bind, Except.bind]
  · cases ‹_ :: _ = []›

/-- What refuses negative numbers and floating-point numbers refuses all that is not natural. -/
lemma notNatural_bind {r : Except Error (Number × List Char)} (h : NotNatural r)
    {f : Number × List Char → Except Error α}
    (hnegative : ∀ n rest, ∃ e, f (.negative n, rest) = .error e)
    (hfloat : ∀ x rest, ∃ e, f (.float x, rest) = .error e) : ∃ e, (r >>= f) = .error e := by
  rcases r with e | ⟨n | n | x, rest⟩
  · exact ⟨e, rfl⟩
  · exact absurd rfl (h n rest)
  · exact hnegative n rest
  · exact hfloat x rest

lemma natural_error (name : String) (hskip : skipSpace cs = d :: more)
    (hd : d.isDigit = true → NotNatural (number false (d :: more))) :
    ∃ e, natural name cs = .error e := by
  unfold natural
  simp only [hskip]
  split
  · exact notNatural_bind (notNatural_negative _) (fun _ _ => ⟨_, rfl⟩) fun _ _ => ⟨_, rfl⟩
  · obtain ⟨rfl, rfl⟩ := List.cons.inj ‹_›
    split
    · exact notNatural_bind (hd ‹_›) (fun _ _ => ⟨_, rfl⟩) fun _ _ => ⟨_, rfl⟩
    · exact mismatch_error _ _
  · cases ‹_ :: _ = []›

end Natural

/-- A fraction or an exponent starts with a mark of its own. -/
lemma exists_mark {fraction exponent : List Char} (hf : FractionText fraction)
    (he : ExponentText exponent) (hne : fraction ++ exponent ≠ []) :
    ∃ mark more, (mark = '.' ∨ mark = 'e' ∨ mark = 'E') ∧ fraction ++ exponent = mark :: more := by
  rcases hf with rfl | ⟨ds, rfl, _⟩
  · rcases he with rfl | ⟨e, sign, ds, rfl, he, _⟩
    · exact absurd rfl hne
    · exact ⟨e, _, .inr he, rfl⟩
  · exact ⟨'.', _, .inl rfl, rfl⟩

/-- A count is a natural number of at most 64 bits. -/
def Value.IsCount (v : Value) (n : Nat) : Prop := v = .natural n ∧ n ≤ maxNatural

theorem reads_natural (name : String) : Reads (natural name) Value.IsCount := by
  refine ⟨fun {v cs ws rest} h hws hrest => ?_⟩
  obtain ⟨c, more, hcs, hc⟩ := h.begins
  have hskip : skipSpace (ws ++ cs ++ rest) = c :: (more ++ rest) := by
    rw [h.skipSpace_append hws, hcs, List.cons_append]
  have happ : c :: (more ++ rest) = cs ++ rest := by rw [hcs, List.cons_append]
  cases h with
  | natural hds =>
    by_cases hle : decimal cs ≤ maxNatural
    · refine .inl ⟨decimal cs, fun n => ?_, natural_of_number name hskip hc ?_⟩
      · simp only [Value.IsCount, Value.natural.injEq]
        exact ⟨fun h => h.1.symm, fun h => ⟨h.symm, h ▸ hle⟩⟩
      · exact happ ▸ number_append hds hrest.noNumber hle
    · refine .error (natural_error name hskip fun _ => ?_) fun n ⟨hn, hle'⟩ => ?_
      · exact happ ▸ notNatural_large hds hrest.noNumber.digit (Nat.lt_of_not_le hle)
      · exact hle ((Value.natural.inj hn).symm ▸ hle')
  | number hn =>
    refine .error (natural_error name hskip fun hdigit => ?_) (by simp [Value.IsCount])
    rw [happ]
    cases hn with
    | negative hds hf he =>
      obtain ⟨rfl, _⟩ := List.cons.inj hcs
      cases hdigit
    | positive hds hf he hne =>
      obtain ⟨mark, more, hmark, heq⟩ := exists_mark hf he hne
      rw [List.append_assoc, List.append_assoc, ← List.append_assoc _ _ rest, heq]
      exact notNatural_marked hmark hds
  | _ =>
    refine .error (natural_error name hskip fun hdigit => ?_) (by simp [Value.IsCount])
    obtain rfl := hc
    cases hdigit

/-- Null means nothing, and any other value what it means by `M`. -/
def Value.IsNullOr (M : Value → α → Prop) (v : Value) : Option α → Prop
  | none => v = .null
  | some a => v ≠ .null ∧ M v a

theorem Reads.optional {R : Reader α} {M : Value → α → Prop} (hR : Reads R M) :
    Reads (optional R) (Value.IsNullOr M) := by
  refine ⟨fun {v cs ws rest} h hws hrest => ?_⟩
  have hskip := h.skipSpace_append hws rest
  by_cases hnull : v = .null
  · subst hnull
    cases h
    refine .inl ⟨none, fun o => by cases o <;> simp [Value.IsNullOr], ?_⟩
    rw [Json.optional, hskip]
    rfl
  · rw [Json.optional, hskip]
    split
    · obtain ⟨c, more, rfl, hc⟩ := h.begins
      obtain ⟨rfl, _⟩ := List.cons.inj ‹_›
      exact absurd hc.null hnull
    · refine ((hR.gives h hrest).map some).congr fun o => ?_
      cases o <;> simp [Value.IsNullOr, hnull]

section NextElement

variable {ws : List Char}

lemma nextElement_cons {e : Element} (he : e.Spaced) (h : Writes e.value e.text) (hws : Spaces ws)
    (comma : Bool) (es : List Element) (rest : List Char) :
    nextElement comma (ws ++ (Element.texts comma (e :: es) ++ rest)) =
      .ok (true, e.text ++ (e.after ++ (Element.texts true es ++ rest))) := by
  have hskip := Element.skipSpace_written he h (Element.texts true es ++ rest)
  obtain ⟨c, more, hcs, hc⟩ := h.begins
  cases comma with
  | false => simp [nextElement, Element.skipSpace_first hws, hskip, hcs, hc.ne.2.2.1]
  | true => simp [nextElement, Element.skipSpace_comma hws, hskip, hcs, hc.ne.2.2.1]

lemma nextElement_nil (hws : Spaces ws) (comma : Bool) (rest : List Char) :
    nextElement comma (ws ++ (Element.texts comma [] ++ rest)) = .ok (false, ']' :: rest) := by
  rw [nextElement, Element.skipSpace_nil hws]
  simp

end NextElement

/-- A list means the list of what its elements mean. -/
def Value.IsListOf (M : Value → α → Prop) (v : Value) (as : List α) : Prop :=
  ∃ vs, v = .list vs ∧ List.Forall₂ M vs as

section Lists

variable {R : Reader α} {M : Value → α → Prop}

lemma Reads.elements (hR : Reads R M) {es : List Element} (hs : ∀ e ∈ es, e.Spaced)
    (hes : ∀ e ∈ es, Writes e.value e.text) {ws : List Char} (hws : Spaces ws) (comma : Bool)
    {fuel : Nat} (hfuel : es.length < fuel) (rest : List Char) :
    Gives (elements R fuel comma (ws ++ (Element.texts comma es ++ rest))) rest
      (List.Forall₂ M (es.map (·.value))) := by
  induction es generalizing fuel ws comma with
  | nil =>
    obtain ⟨fuel, rfl⟩ : ∃ f, fuel = f + 1 := ⟨fuel - 1, by omega⟩
    simp only [Json.elements, nextElement_nil hws]
    exact (Gives.ok [] rest).congr (by simp)
  | cons e es ih =>
    obtain ⟨fuel, rfl⟩ : ∃ f, fuel = f + 1 := ⟨fuel - 1, by omega⟩
    simp only [List.mem_cons, forall_eq_or_imp] at hs hes
    have hfirst := hR.gives hes.1 (hs.1.2.ends (Element.ends_texts es rest))
    have hmore := ih hs.2 hes.2 hs.1.2 true (Nat.lt_of_succ_lt_succ hfuel)
    simp only [Json.elements, nextElement_cons hs.1 hes.1 hws]
    refine Gives.congr (M := fun as => ∃ a, M e.value a ∧
      ∃ more, List.Forall₂ M (es.map (·.value)) more ∧ as = a :: more)
      (hfirst.bind fun a _ => hmore.bind fun as _ => .ok (a :: as) rest) fun as => ?_
    simp [List.forall₂_cons_left_iff]

theorem Reads.list (hR : Reads R M) : Reads (list R) (Value.IsListOf M) := by
  refine ⟨fun {v cs ws rest} h hws hrest => ?_⟩
  have hskip := h.skipSpace_append hws rest
  obtain ⟨c, more, hcs, hc⟩ := h.begins
  rw [Json.list, hskip]
  cases h with
  | @list ws' es hws' hs hes =>
    have hM : ∀ as, Value.IsListOf M (.list (es.map (·.value))) as ↔
        List.Forall₂ M (es.map (·.value)) as := fun as => by simp [Value.IsListOf]
    have hfuel := Element.length_texts false es
    simp only [List.cons_append, List.append_assoc]
    refine (hR.elements hs hes hws' false ?_ rest).congr hM
    simp only [List.length_append]
    omega
  | _ =>
    have hbracket : c ≠ '[' := by
      rintro rfl
      simp [Value.Begins] at hc
    refine .error ?_ (by simp [Value.IsListOf])
    rw [hcs]
    split
    · exact absurd (List.cons.inj ‹_›).1 hbracket
    · exact mismatch_error _ _

end Lists

/-- A text is read just as its value is, with any white space around it. -/
theorem Reads.document {R : Reader α} {M : Value → α → Prop} (hR : Reads R M) {v : Value}
    {cs ws ws' : List Char} (h : Writes v cs) (hws : Spaces ws) (hws' : Spaces ws') {a : α} :
    document R (ws ++ cs ++ ws') = .ok a ↔ M v a := by
  have hend : skipSpace ws' = [] := by
    have hskip := skipSpace_append hws' []
    rwa [List.append_nil] at hskip
  have hends : Ends ws' := by
    have hends : Ends (ws' ++ []) := hws'.ends (by simp [Ends])
    rwa [List.append_nil] at hends
  rcases hR.spaced h hws hends with ⟨b, hb, hok⟩ | ⟨hnone, e, he⟩
  · simp only [Json.document, hok, bind, Except.bind, hend, List.isEmpty_nil, if_true,
      Except.ok.injEq, hb, eq_comm]
  · simp only [Json.document, he, bind, Except.bind, hnone a, reduceCtorEq]

end Mend.Json
