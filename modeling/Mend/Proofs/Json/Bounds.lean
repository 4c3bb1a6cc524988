import Mathlib.Tactic.Lemma
import Mend.Json.Typed
import Mend.Proofs.Json.Numbers

/-! What readers can give at all, whatever text they are given: a reader that is put together from
others gives only what these let it. -/
namespace Mend.Json

variable {α β δ : Type} {P : α → Prop} {Q : β → Prop}

/-- If a reading gives a value, it is one that `P` holds of. -/
def Only (P : α → Prop) (r : Except Error (α × List Char)) : Prop :=
  ∀ a rest, r = .ok (a, rest) → P a

lemma only_ok {a : α} (h : P a) (rest : List Char) : Only P (.ok (a, rest)) := by
  rintro b rest' hb
  obtain ⟨rfl, rfl⟩ := Prod.mk.inj (Except.ok.inj hb)
  exact h

lemma only_error (e : Error) : Only P (.error e) := nofun

lemma Only.bind {r : Except Error (α × List Char)}
    {f : α × List Char → Except Error (β × List Char)} (h : Only P r)
    (hf : ∀ a rest, P a → Only Q (f (a, rest))) : Only Q (r >>= f) := by
  rcases r with e | ⟨a, rest⟩
  · exact only_error e
  · exact hf a rest (h a rest rfl)

/-- What is read first may leave nothing to say. -/
lemma only_bind {γ : Type} {r : Except Error γ} {f : γ → Except Error (β × List Char)}
    (hf : ∀ c, Only Q (f c)) : Only Q (r >>= f) := by
  cases r with
  | error e => exact only_error e
  | ok c => exact hf c

lemma Only.map {r : Except Error (α × List Char)} (h : Only P r) {f : α × List Char → β × List Char}
    (hf : ∀ a rest, P a → Q (f (a, rest)).1) : Only Q (r.map f) := by
  rcases r with e | ⟨a, rest⟩
  · exact only_error e
  · exact only_ok (hf a rest (h a rest rfl)) _

/-- A mismatch gives nothing. -/
lemma only_mismatch (expected : String) (cs : List Char) : Only P (mismatch expected cs) := by
  unfold mismatch
  simp only
  repeat' split
  all_goals first | exact only_error _ | exact only_bind fun _ => only_error _

/-- Digits are taken up only as long as the number has 64 bits. -/
lemma significand_le {n : Nat} (h : n ≤ maxNatural) (cs : List Char) :
    (significand n cs).1 ≤ maxNatural := by
  fun_induction significand n cs with
  | case1 n => exact h
  | case2 n c cs hfits ih =>
    simp only [Bool.and_eq_true, decide_eq_true_eq] at hfits
    exact ih hfits.2
  | case3 n c cs => exact h

/-- A natural number that is read. -/
def Number.Small : Number → Prop
  | .natural n => n ≤ maxNatural
  | _ => True

lemma NotNatural.only {r : Except Error (Number × List Char)} (h : NotNatural r) :
    Only Number.Small r := by
  rintro (n | n | x) rest hr
  · exact absurd hr (h n rest)
  · trivial
  · trivial

lemma only_number (isNegative : Bool) (cs : List Char) :
    Only Number.Small (number isNegative cs) := by
  have htail {n : Nat} (hn : n ≤ maxNatural) (cs : List Char) :
      Only Number.Small (numberTail false n cs) := by
    have hwhole : Number.Small (.natural n) := hn
    unfold numberTail
    simp only [Bool.false_eq_true, if_false]
    split
    · exact (notNatural_fractionPart _ _ _ _).only
    · split
      · exact (notNatural_exponentPart _ _ _ _).only
      · exact only_ok hwhole _
    · exact only_ok hwhole _
  cases isNegative with
  | true => exact (notNatural_negative cs).only
  | false =>
    unfold number
    split
    · exact only_error _
    · split
      · exact only_error _
      · exact htail (Nat.zero_le _) _
    · split
      · simp only
        split
        · split
          · exact (notNatural_fractionPart _ _ _ _).only
          · exact (notNatural_endOfNumber _ _ _ _).only
        · exact htail (significand_le (Nat.zero_le _) _) _
      · exact only_error _

theorem only_natural (name : String) (cs : List Char) :
    Only (· ≤ maxNatural) (natural name cs) := by
  have haccept {r : Except Error (Number × List Char)} (hr : Only Number.Small r)
      {f : Number × List Char → Except Error (Nat × List Char)}
      (hnatural : ∀ n rest, f (.natural n, rest) = .ok (n, rest))
      (hnegative : ∀ n rest, ∃ e, f (.negative n, rest) = .error e)
      (hfloat : ∀ x rest, ∃ e, f (.float x, rest) = .error e) :
      Only (· ≤ maxNatural) (r >>= f) := by
    refine hr.bind fun n rest hn => ?_
    cases n with
    | natural n =>
      rw [hnatural]
      exact only_ok (P := (· ≤ maxNatural)) hn rest
    | negative n =>
      obtain ⟨e, he⟩ := hnegative n rest
      exact he ▸ only_error e
    | float x =>
      obtain ⟨e, he⟩ := hfloat x rest
      exact he ▸ only_error e
  unfold natural
  split
  · exact haccept (only_number true _) (fun _ _ => rfl) (fun _ _ => ⟨_, rfl⟩) fun _ _ => ⟨_, rfl⟩
  · split
    · exact haccept (only_number false _) (fun _ _ => rfl) (fun _ _ => ⟨_, rfl⟩) fun _ _ => ⟨_, rfl⟩
    · exact only_mismatch _ _
  · exact only_error _

variable {R : Reader α}

lemma only_optional (h : ∀ cs, Only P (R cs)) (cs : List Char) :
    Only (fun o => ∀ a ∈ o, P a) (optional R cs) := by
  unfold optional
  split
  · exact Only.map (P := fun _ => True) (fun _ _ _ => trivial) (by simp)
  · exact (h _).map fun a rest ha => by simpa using ha

lemma only_elements (h : ∀ cs, Only P (R cs)) (fuel : Nat) (comma : Bool) (cs : List Char) :
    Only (fun as => ∀ a ∈ as, P a) (elements R fuel comma cs) := by
  induction fuel generalizing comma cs with
  | zero => exact only_error _
  | succ fuel ih =>
    refine only_bind fun ⟨more, cs⟩ => ?_
    cases more with
    | false => exact only_ok (by simp) _
    | true =>
      refine (h cs).bind fun a rest ha => (ih true rest).bind fun as rest has => ?_
      exact only_ok (List.forall_mem_cons.2 ⟨ha, has⟩) _

lemma only_list (h : ∀ cs, Only P (R cs)) (cs : List Char) :
    Only (fun as => ∀ a ∈ as, P a) (list R cs) := by
  unfold list
  split
  · exact only_elements h _ _ _
  · exact only_mismatch _ _

section

variable {s : Shape δ} {I : δ → Prop}

lemma only_positional {slots : List (Slot δ)}
    (hfill : ∀ slot ∈ slots, ∀ d cs, I d → Only I (slot.fill d cs)) (i : Nat) (comma : Bool)
    {d : δ} (hd : I d) (cs : List Char) : Only I (s.positional slots i comma d cs) := by
  induction slots generalizing i comma d cs with
  | nil => exact only_ok hd cs
  | cons slot slots ih =>
    obtain ⟨hslot, hslots⟩ := List.forall_mem_cons.1 hfill
    refine only_bind fun ⟨more, cs⟩ => ?_
    cases more with
    | true => exact (hslot d cs hd).bind fun d rest hd => ih hslots _ _ hd rest
    | false =>
      simp only [Bool.false_eq_true, if_false]
      split
      · exact only_error _
      · exact ih hslots _ _ hd _

lemma only_members (hfill : ∀ slot ∈ s.slots, ∀ d cs, I d → Only I (slot.fill d cs))
    (fuel : Nat) (comma : Bool) {d : δ} (hd : I d) (cs : List Char) :
    Only I (s.members fuel comma d cs) := by
  induction fuel generalizing comma d cs with
  | zero => exact only_error _
  | succ fuel ih =>
    refine only_bind fun key => ?_
    rcases key with _ | ⟨key, rest⟩
    · exact only_ok hd _
    · simp only
      split
      · rename_i slot hslot
        split
        · exact only_error _
        · refine only_bind fun cs => ?_
          exact (hfill slot (List.mem_of_find?_eq_some hslot) d cs hd).bind fun d rest hd =>
            ih true hd rest
      · exact only_bind fun cs => only_bind fun cs => ih true hd cs

/-- What holds of the empty draft and is kept by each of the fields holds of a record. -/
theorem only_read (hempty : I s.empty)
    (hfill : ∀ slot ∈ s.slots, ∀ d cs, I d → Only I (slot.fill d cs)) (cs : List Char) :
    Only I (s.read cs) := by
  unfold Shape.read
  split
  · exact only_error _
  · exact (only_positional hfill 0 false hempty _).bind fun d rest hd =>
      only_bind fun rest => only_ok hd rest
  · refine (only_members hfill _ false hempty _).bind fun d rest hd => ?_
    simp only
    split
    · exact only_error _
    · exact only_ok hd rest
  · exact only_mismatch _ _

end

lemma of_document {cs : List Char} {a : α} (h : ∀ cs, Only P (R cs)) (ha : document R cs = .ok a) :
    P a := by
  unfold document at ha
  rcases hread : R cs with e | ⟨b, rest⟩
  · simp [hread, bind, Except.bind] at ha
  · simp only [hread, bind, Except.bind] at ha
    split at ha
    · exact Except.ok.inj ha ▸ h cs b rest hread
    · cases ha

end Mend.Json
