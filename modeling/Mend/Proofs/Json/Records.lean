import Mend.Proofs.Json.Readers
import Mend.Proofs.Json.Skipping

/-! Records. A record is read from an object whatever the order of its members and whatever other
members it has, as long as each field is there once or may be missing, and from the list of its
fields in order. -/
namespace Mend.Json

variable {δ : Type}

/-- The values of the members of that name. -/
def values (ms : List (Option (List Char) × Value)) (name : String) : List Value :=
  (ms.filter (·.1 = some name.toList)).map (·.2)

@[simp] lemma values_nil (name : String) : values [] name = [] := rfl

lemma values_cons_self (name : String) (v : Value) (ms : List (Option (List Char) × Value)) :
    values ((some name.toList, v) :: ms) name = v :: values ms name := by
  simp [values]

lemma values_cons_of_ne {name other : String} (h : other ≠ name) (v : Value)
    (ms : List (Option (List Char) × Value)) :
    values ((some name.toList, v) :: ms) other = values ms other := by
  have hne : name.toList ≠ other.toList := fun heq => h (String.ext heq.symm)
  simp [values, hne]

/-- Just one member has that name, and its value means `a`. -/
def Has {α : Type} (ms : List (Option (List Char) × Value)) (name : String)
    (M : Value → α → Prop) (a : α) : Prop := ∃ v, values ms name = [v] ∧ M v a

lemma Has.all {α : Type} {ms : List (Option (List Char) × Value)} {name : String}
    {M : Value → α → Prop} {a : α} (h : Has ms name M a) :
    (values ms name).length = 1 ∧ ∀ v ∈ values ms name, M v a := by
  obtain ⟨v, hv, hM⟩ := h
  simp [hv, hM]

/-- All names are texts. -/
def Named (ms : List (Option (List Char) × Value)) : Prop := ∀ m ∈ ms, m.1 ≠ none

/-- A field of a record, with what its values mean. -/
structure Field (δ : Type) where
  name : String
  required : Bool
  type : Type
  value : Reader type
  get : δ → Option type
  set : δ → type → δ
  Means : Value → type → Prop
  reads : Reads value Means

namespace Field

def slot (f : Field δ) : Slot δ := .ofOption f.name f.required f.value f.get f.set

/-- What a draft has for the field, given the members of an object: the field is there, or it is not
required and is not there. -/
def Holds (f : Field δ) (ms : List (Option (List Char) × Value)) (d : δ) : Prop :=
  values ms f.name = [] ∧ f.required = false ∧ f.get d = none ∨
    ∃ a, Has ms f.name f.Means a ∧ f.get d = some a

/-- What a draft has for the field once it has taken up some values for it. A field is taken up
once. -/
def Takes (f : Field δ) (vs : List Value) (d d' : δ) : Prop :=
  vs = [] ∧ f.get d' = f.get d ∨
    ∃ v a, vs = [v] ∧ f.get d = none ∧ f.Means v a ∧ f.get d' = some a

lemma takes_nil (f : Field δ) (d d' : δ) : f.Takes [] d d' ↔ f.get d' = f.get d := by
  simp [Takes]

lemma takes_cons (f : Field δ) (v : Value) (vs : List Value) (d d' : δ) :
    f.Takes (v :: vs) d d' ↔
      f.get d = none ∧ vs = [] ∧ ∃ a, f.Means v a ∧ f.get d' = some a := by
  simp only [Takes, List.cons_ne_nil, false_and, false_or, List.cons.injEq]
  constructor
  · rintro ⟨w, a, ⟨rfl, rfl⟩, hd, ha, hd'⟩
    exact ⟨hd, rfl, a, ha, hd'⟩
  · rintro ⟨hd, rfl, a, ha, hd'⟩
    exact ⟨v, a, ⟨rfl, rfl⟩, hd, ha, hd'⟩

/-- A field that is taken up already takes no more values. -/
lemma takes_some {f : Field δ} {d : δ} {a : f.type} (hd : f.get d = some a) (vs : List Value)
    (d' : δ) : f.Takes vs d d' ↔ vs = [] ∧ f.get d' = some a := by
  simp [Takes, hd]

end Field

/-- The fields of a record type, which do not depend on each other. -/
structure Shape.Fields (s : Shape δ) where
  all : List (Field δ)
  slots : s.slots = all.map Field.slot
  empty : ∀ f ∈ all, f.get s.empty = none
  get_set : ∀ f ∈ all, ∀ d a, f.get (f.set d a) = some a
  get_set_of_ne : ∀ f ∈ all, ∀ g ∈ all, f.name ≠ g.name → ∀ d a, g.get (f.set d a) = g.get d
  name_inj : ∀ f ∈ all, ∀ g ∈ all, f.name = g.name → f = g
  ext : ∀ {d d'}, (∀ f ∈ all, f.get d' = f.get d) → d' = d

namespace Shape.Fields

open Shape

variable {s : Shape δ} (t : s.Fields)

/-- What becomes of a draft when it takes up the members of an object. -/
def Takes (ms : List (Option (List Char) × Value)) (d d' : δ) : Prop :=
  Named ms ∧ ∀ f ∈ t.all, f.Takes (values ms f.name) d d'

variable {v : Value} {ms : List (Option (List Char) × Value)} {d d' : δ} {f : Field δ}

lemma takes_nil : t.Takes [] d d' ↔ d' = d := by
  simp only [Takes, Named, List.not_mem_nil, false_implies, implies_true, true_and, values_nil,
    Field.takes_nil]
  exact ⟨t.ext, fun h f _ => h ▸ rfl⟩

lemma named_cons {name : String} :
    Named ((some name.toList, v) :: ms) ↔ Named ms := by
  simp [Named]

lemma not_takes_none : ¬ t.Takes ((none, v) :: ms) d d' := by
  simp [Takes, Named]

lemma takes_other {name : String} (h : ∀ f ∈ t.all, f.name ≠ name) :
    t.Takes ((some name.toList, v) :: ms) d d' ↔ t.Takes ms d d' := by
  simp only [Takes, named_cons]
  refine and_congr_right fun _ => forall₂_congr fun f hf => ?_
  rw [values_cons_of_ne (h f hf)]

lemma not_takes_some (hf : f ∈ t.all) (hd : (f.get d).isSome = true) :
    ¬ t.Takes ((some f.name.toList, v) :: ms) d d' := by
  intro h
  have hfield := h.2 f hf
  rw [values_cons_self, Field.takes_cons] at hfield
  rw [hfield.1] at hd
  cases hd

lemma takes_field (hf : f ∈ t.all) (hd : f.get d = none) :
    t.Takes ((some f.name.toList, v) :: ms) d d' ↔
      ∃ a, f.Means v a ∧ t.Takes ms (f.set d a) d' := by
  have hother (g) (hg : g ∈ t.all) (hne : g ≠ f) (a : f.type) :
      g.Takes (values ((some f.name.toList, v) :: ms) g.name) d d' ↔
        g.Takes (values ms g.name) (f.set d a) d' := by
    have hname : f.name ≠ g.name := fun h => hne (t.name_inj f hf g hg h).symm
    rw [values_cons_of_ne hname.symm, Field.Takes, Field.Takes,
      t.get_set_of_ne f hf g hg hname d a]
  have hself (a : f.type) : f.Takes (values ms f.name) (f.set d a) d' ↔
      values ms f.name = [] ∧ f.get d' = some a := Field.takes_some (t.get_set f hf d a) _ _
  simp only [Takes, named_cons]
  constructor
  · rintro ⟨hnamed, h⟩
    obtain ⟨_, hvalues, a, ha, hd'⟩ : f.get d = none ∧ values ms f.name = [] ∧
        ∃ a, f.Means v a ∧ f.get d' = some a := by
      simpa [values_cons_self, Field.takes_cons] using h f hf
    refine ⟨a, ha, hnamed, fun g hg => ?_⟩
    by_cases hgf : g = f
    · subst hgf
      exact (hself a).2 ⟨hvalues, hd'⟩
    · exact (hother g hg hgf a).1 (h g hg)
  · rintro ⟨a, ha, hnamed, h⟩
    refine ⟨hnamed, fun g hg => ?_⟩
    by_cases hgf : g = f
    · subst hgf
      obtain ⟨hvalues, hd'⟩ := (hself a).1 (h g hg)
      rw [values_cons_self, Field.takes_cons]
      exact ⟨hd, hvalues, a, ha, hd'⟩
    · exact (hother g hg hgf a).2 (h g hg)

section Objects

variable {ws rest : List Char} {fuel : Nat}

lemma nextKey_cons {m : Member} (hm : m.Spaced) (hws : Spaces ws) (comma : Bool)
    (ms : List Member) (rest : List Char) :
    nextKey comma (ws ++ (Member.texts comma (m :: ms) ++ rest)) =
      (string (m.nameText ++ (m.gap ++ ':' :: (m.element.written ++
        (Member.texts true ms ++ rest))))).map some := by
  have hskip := Member.skipSpace_written hm (Member.texts true ms ++ rest)
  cases comma with
  | false => simp [nextKey, Member.skipSpace_first hws, hskip]
  | true => simp [nextKey, Member.skipSpace_comma hws, hskip]

lemma nextKey_nil (hws : Spaces ws) (comma : Bool) (rest : List Char) :
    nextKey comma (ws ++ (Member.texts comma [] ++ rest)) = .ok none := by
  rw [nextKey, Member.skipSpace_nil hws]
  simp

lemma colon_append {gap : List Char} (hgap : Spaces gap) (rest : List Char) :
    colon (gap ++ ':' :: rest) = .ok rest := by
  rw [colon, skipSpace_append hgap, skipSpace_cons (by decide)]
  simp

/-- The slot that a name has, and the field behind it. -/
lemma find?_slots (name : String) :
    (∃ f ∈ t.all, f.name = name ∧ s.slots.find? (·.name = name) = some f.slot) ∨
      (∀ f ∈ t.all, f.name ≠ name) ∧ s.slots.find? (·.name = name) = none := by
  rw [t.slots, List.find?_map]
  cases hfind : t.all.find? ((fun slot => decide (slot.name = name)) ∘ Field.slot) with
  | none =>
    refine .inr ⟨fun f hf hname => ?_, rfl⟩
    simpa [Field.slot, Slot.ofOption, hname] using List.find?_eq_none.1 hfind f hf
  | some f =>
    have hname := List.find?_some hfind
    exact .inl ⟨f, List.mem_of_find?_eq_some hfind, of_decide_eq_true hname, rfl⟩

lemma gives_members {ms : List Member} (hs : ∀ m ∈ ms, m.Spaced)
    (hnames : ∀ m ∈ ms, StringText m.name? m.nameText)
    (hms : ∀ m ∈ ms, Writes m.element.value m.element.text) (hws : Spaces ws) (comma : Bool)
    (hfuel : ms.length < fuel) (d : δ) (rest : List Char) :
    Gives (s.members fuel comma d (ws ++ (Member.texts comma ms ++ rest))) rest
      (t.Takes (ms.map Member.pair) d) := by
  induction ms generalizing fuel ws comma d with
  | nil =>
    obtain ⟨fuel, rfl⟩ : ∃ f, fuel = f + 1 := ⟨fuel - 1, by omega⟩
    rw [members, nextKey_nil hws]
    simp only [bind, Except.bind, Member.skipSpace_nil hws]
    exact (Gives.ok d rest).congr fun d' => t.takes_nil
  | cons m ms ih =>
    obtain ⟨fuel, rfl⟩ : ∃ f, fuel = f + 1 := ⟨fuel - 1, by omega⟩
    simp only [List.mem_cons, forall_eq_or_imp] at hs hnames hms
    obtain ⟨hbefore, hgap, hspaced⟩ := hs.1
    have hends := Member.ends_texts ms rest
    have hread (f : Field δ) := (f.reads.written hms.1 hspaced hends).map (f.set d)
    have hmore (d) := ih hs.2 hnames.2 hms.2 hspaced.2 true (Nat.lt_of_succ_lt_succ hfuel) d
    obtain ⟨hok, herror⟩ := hnames.1.string
      (m.gap ++ ':' :: (m.element.written ++ (Member.texts true ms ++ rest)))
    rw [members, nextKey_cons hs.1 hws]
    cases hname : m.name? with
    | none =>
      obtain ⟨e, he⟩ := herror hname
      rw [he]
      refine .error ⟨e, rfl⟩ fun d' => ?_
      rw [List.map_cons, Member.pair, hname]
      exact t.not_takes_none
    | some cs =>
      obtain ⟨name, rfl⟩ : ∃ s : String, cs = s.toList := ⟨String.ofList cs, by simp⟩
      rw [hok _ hname, String.ofList_toList, List.map_cons, Member.pair, hname]
      simp only [Except.map, bind, Except.bind]
      rcases t.find?_slots name with ⟨f, hf, rfl, hfind⟩ | ⟨hother, hfind⟩
      · simp only [hfind, colon_append hgap]
        cases hd : f.get d with
        | some a =>
          have hfilled : f.slot.isFilled d = true := by simp [Field.slot, Slot.ofOption, hd]
          rw [if_pos hfilled]
          exact .error ⟨_, rfl⟩ fun d' => t.not_takes_some hf (by rw [hd]; rfl)
        | none =>
          have hfilled : ¬ f.slot.isFilled d = true := by simp [Field.slot, Slot.ofOption, hd]
          rw [if_neg hfilled]
          change Gives ((f.value (m.element.written ++ _)).map (fun x => (f.set d x.1, x.2)) >>=
            fun x => s.members fuel true x.1 x.2) rest _
          refine ((hread f).bind fun d' _ => hmore d').congr fun d' => ?_
          rw [t.takes_field hf hd, exists_exists_and_eq_and]
      · simp only [hfind, colon_append hgap, hms.1.skip_written hspaced hends]
        exact (hmore d).congr fun d' => t.takes_other hother

/-- Required fields are asked for once all members are taken up. -/
lemma find?_missing (d : δ) :
    s.slots.find? (fun slot => slot.required && !slot.isFilled d) = none ↔
      ∀ f ∈ t.all, f.required = true → (f.get d).isSome = true := by
  rw [t.slots, List.find?_eq_none]
  simp [Field.slot, Slot.ofOption]

lemma holds_iff (hf : f ∈ t.all) :
    f.Holds ms d ↔ f.Takes (values ms f.name) s.empty d ∧
      (f.required = true → (f.get d).isSome = true) := by
  simp only [Field.Holds, Field.Takes, Has, t.empty f hf, true_and]
  constructor
  · rintro (⟨hvs, hrequired, hd⟩ | ⟨a, ⟨v, hvs, ha⟩, hd⟩)
    · exact ⟨.inl ⟨hvs, hd⟩, fun h => by simp [hrequired] at h⟩
    · exact ⟨.inr ⟨v, a, hvs, ha, hd⟩, fun _ => by rw [hd]; rfl⟩
  · rintro ⟨⟨hvs, hd⟩ | ⟨v, a, hvs, ha, hd⟩, hrequired⟩
    · refine .inl ⟨hvs, ?_, hd⟩
      rw [hd] at hrequired
      simpa using hrequired
    · exact .inr ⟨a, ⟨v, hvs, ha⟩, hd⟩

end Objects

/-- What becomes of a draft when it takes up values for the fields in order. Fields at the end may
be left out where they are not required. -/
@[simp] def InOrder : List (Field δ) → List Value → δ → δ → Prop
  | [], vs, d, d' => vs = [] ∧ d' = d
  | f :: fs, [], d, d' => f.required = false ∧ InOrder fs [] d d'
  | f :: fs, v :: vs, d, d' => ∃ a, f.Means v a ∧ InOrder fs vs (f.set d a) d'

section Lists

variable {ws : List Char}

/-- A list that is full has to end. -/
lemma endOfList_cons {e : Element} (he : e.Spaced) (h : Writes e.value e.text) (hws : Spaces ws)
    (comma : Bool) (es : List Element) (rest : List Char) :
    ∃ err, endOfList (ws ++ (Element.texts comma (e :: es) ++ rest)) = .error err := by
  obtain ⟨c, cs, hcs, hc⟩ : ∃ c cs, skipSpace (ws ++ (Element.texts comma (e :: es) ++ rest)) =
      c :: cs ∧ c ≠ ']' := by
    obtain ⟨c, more, hcs, hc⟩ := h.begins
    cases comma with
    | true => exact ⟨',', _, Element.skipSpace_comma hws e es rest, by decide⟩
    | false =>
      rw [Element.skipSpace_first hws, Element.skipSpace_written he h, hcs]
      exact ⟨c, _, rfl, hc.ne.2.2.1⟩
  rw [endOfList, hcs]
  simp only [hc, if_false]
  split <;> exact ⟨_, rfl⟩

lemma gives_positional {fs : List (Field δ)} {es : List Element} (hs : ∀ e ∈ es, e.Spaced)
    (hes : ∀ e ∈ es, Writes e.value e.text) (hws : Spaces ws) (i : Nat) (comma : Bool) (d : δ)
    (rest : List Char) :
    Gives (do
      let (d, cs) ← s.positional (fs.map Field.slot) i comma d
        (ws ++ (Element.texts comma es ++ rest))
      .ok (d, ← endOfList cs)) rest (InOrder fs (es.map (·.value)) d) := by
  induction fs generalizing es ws i comma d with
  | nil =>
    cases es with
    | nil =>
      have hend : endOfList (ws ++ (Element.texts comma [] ++ rest)) = .ok rest := by
        rw [endOfList, Element.skipSpace_nil hws]
        simp
      simp only [List.map_nil, positional, hend, bind, Except.bind]
      exact (Gives.ok d rest).congr fun d' => by simp [InOrder]
    | cons e es =>
      simp only [List.mem_cons, forall_eq_or_imp] at hs hes
      obtain ⟨err, herr⟩ := endOfList_cons hs.1 hes.1 hws comma es rest
      simp only [List.map_nil, positional, herr, bind, Except.bind]
      exact .error ⟨err, rfl⟩ fun d' => by simp [InOrder]
  | cons f fs ih =>
    cases es with
    | nil =>
      simp only [List.map_cons, positional, nextElement_nil hws, bind, Except.bind]
      cases hrequired : f.required with
      | true =>
        have hslot : f.slot.required = true := hrequired
        simp only [hslot, if_true]
        exact .error ⟨_, rfl⟩ fun d' => by simp [InOrder, hrequired]
      | false =>
        have hslot : ¬ f.slot.required = true := by simp [Field.slot, Slot.ofOption, hrequired]
        simp only [hslot]
        exact (ih hs hes spaces_nil (i + 1) comma d).congr fun d' => by simp [InOrder, hrequired]
    | cons e es =>
      simp only [List.mem_cons, forall_eq_or_imp] at hs hes
      have hends := hs.1.2.ends (Element.ends_texts es rest)
      have hread := (f.reads.gives hes.1 hends).map (f.set d)
      have hmore (d) := ih hs.2 hes.2 hs.1.2 (i + 1) true d
      simp only [List.map_cons, positional, nextElement_cons hs.1 hes.1 hws]
      change Gives (((f.value _).map (fun x => (f.set d x.1, x.2)) >>= fun x =>
        s.positional (fs.map Field.slot) (i + 1) true x.1 x.2) >>= _) rest _
      rw [bind_assoc]
      refine (hread.bind fun d' _ => hmore d').congr fun d' => ?_
      rw [InOrder, exists_exists_and_eq_and]

end Lists

/-- The records that a value means. -/
def Means : Value → δ → Prop
  | .object ms, d => Named ms ∧ ∀ f ∈ t.all, f.Holds ms d
  | .list vs, d => InOrder t.all vs s.empty d
  | _, _ => False

@[simp] lemma means_list {vs : List Value} {d : δ} :
    t.Means (.list vs) d ↔ InOrder t.all vs s.empty d := Iff.rfl

theorem reads : Reads s.read t.Means := by
  refine ⟨fun {v cs ws rest} h hws hrest => ?_⟩
  have hskip := h.skipSpace_append hws rest
  obtain ⟨c, more, hcs, hc⟩ := h.begins
  rw [Shape.read, hskip]
  cases h with
  | @list ws' es hws' hs hes =>
    simp only [List.cons_append, List.append_assoc, t.slots]
    exact gives_positional hs hes hws' 0 false s.empty rest
  | @object ws' ms hws' hs hnames hms =>
    have hfuel := Member.length_texts false ms
    simp only [List.cons_append, List.append_assoc]
    refine Gives.congr (M := fun d' => ∃ d, t.Takes (ms.map Member.pair) s.empty d ∧
      (∀ f ∈ t.all, f.required = true → (f.get d).isSome = true) ∧ d' = d)
      (Gives.bind (t.gives_members hs hnames hms hws' false ?_ s.empty rest) fun d _ => ?_)
      fun d => ?_
    · simp only [List.length_append]
      omega
    · rw [← t.find?_missing]
      cases hmissing : s.slots.find? fun slot => slot.required && !slot.isFilled d with
      | none => exact (Gives.ok d rest).congr fun d' => by simp
      | some slot => exact .error ⟨_, rfl⟩ fun d' => by simp
    · simp only [Means, Takes]
      constructor
      · rintro ⟨hnamed, h⟩
        exact ⟨d, ⟨hnamed, fun f hf => ((t.holds_iff hf).1 (h f hf)).1⟩,
          fun f hf => ((t.holds_iff hf).1 (h f hf)).2, rfl⟩
      · rintro ⟨_, ⟨hnamed, htakes⟩, hrequired, rfl⟩
        exact ⟨hnamed, fun f hf => (t.holds_iff hf).2 ⟨htakes f hf, hrequired f hf⟩⟩
  | _ =>
    have hbracket : c ≠ '[' ∧ c ≠ '\x7b' := by
      constructor <;> (rintro rfl; simp [Value.Begins] at hc)
    refine .error ?_ (by simp [Means])
    rw [hcs]
    split
    · exact ⟨_, rfl⟩
    · exact absurd (List.cons.inj ‹_›).1 hbracket.1
    · exact absurd (List.cons.inj ‹_›).1 hbracket.2
    · exact mismatch_error _ _

end Shape.Fields

end Mend.Json
