import Mathlib.Data.List.FinRange
import Mathlib.Tactic.Lemma
import Mend.Syntax.Outline

/-! Trees whose nodes lie inside each other or apart. Of two nodes around one offset one is an
ancestor of the other, so that all of them are on the way up from the deepest one. -/
namespace Mend
namespace Tree

variable {ν : Type} {t : Tree ν} {root n m p : ν} {o : Nat}

/-- The nodes of a tree: the root and what is found from it on the way down. -/
inductive Node (t : Tree ν) (root : ν) : ν → Prop
  | root : Node t root root
  | child {n m : ν} : Node t root n → m ∈ t.children n → Node t root m

/-- A child's place is inside that of its parent, and siblings are apart. -/
structure Laminar (t : Tree ν) (root : ν) : Prop where
  ancestors_root : t.ancestors root = []
  ancestors_child : ∀ n m, t.Node root n → m ∈ t.children n → t.ancestors m = n :: t.ancestors n
  inside : ∀ n m, t.Node root n → m ∈ t.children n →
    (t.span n).start ≤ (t.span m).start ∧ (t.span m).stop ≤ (t.span n).stop
  apart : ∀ n m p, t.Node root n → m ∈ t.children n → p ∈ t.children n → m ≠ p →
    ∀ o, (t.span m).Contains o → ¬ (t.span p).Contains o

/-- A node around an offset such that no other one around it is further down. -/
structure Deepest (t : Tree ν) (root : ν) (o : Nat) (n : ν) : Prop where
  node : t.Node root n
  contains : (t.span n).Contains o
  depth : ∀ m, t.Node root m → (t.span m).Contains o →
    (t.ancestors m).length ≤ (t.ancestors n).length

/-- In a text of `length` characters the leaf at an offset is the deepest node around it, or the
root where there is none. -/
structure Nested (t : Tree ν) (root : ν) (length : Nat) : Prop extends t.Laminar root where
  leafAt?_deepest : ∀ o ≤ length, (∃ n, t.Node root n ∧ (t.span n).Contains o) →
    ∃ n, t.leafAt? o = some n ∧ t.Deepest root o n
  leafAt?_root : ∀ o ≤ length, (¬ ∃ n, t.Node root n ∧ (t.span n).Contains o) →
    t.leafAt? o = some root
  leafAt?_past : ∀ o, length < o → t.leafAt? o = none

namespace Laminar

variable (h : t.Laminar root)

include h

lemma node_of_mem_ancestors (hn : t.Node root n) (hm : m ∈ t.ancestors n) : t.Node root m := by
  induction hn with
  | root =>
    rw [h.ancestors_root] at hm
    cases hm
  | @child n p hn hp ih =>
    rw [h.ancestors_child n p hn hp] at hm
    rcases List.mem_cons.1 hm with rfl | hm
    · exact hn
    · exact ih hm

/-- An ancestor's place is around that of the node. -/
lemma span_of_mem_ancestors (hn : t.Node root n) (hm : m ∈ t.ancestors n) :
    (t.span m).start ≤ (t.span n).start ∧ (t.span n).stop ≤ (t.span m).stop := by
  induction hn with
  | root =>
    rw [h.ancestors_root] at hm
    cases hm
  | @child n p hn hp ih =>
    obtain ⟨hstart, hstop⟩ := h.inside n p hn hp
    rw [h.ancestors_child n p hn hp] at hm
    rcases List.mem_cons.1 hm with rfl | hm
    · exact ⟨hstart, hstop⟩
    · obtain ⟨hstart', hstop'⟩ := ih hm
      exact ⟨Nat.le_trans hstart' hstart, Nat.le_trans hstop hstop'⟩

lemma contains_of_mem_ancestors (hn : t.Node root n) (hm : m ∈ t.ancestors n)
    (ho : (t.span n).Contains o) : (t.span m).Contains o := by
  obtain ⟨hstart, hstop⟩ := h.span_of_mem_ancestors hn hm
  exact ⟨Nat.le_trans hstart ho.1, Nat.lt_of_lt_of_le ho.2 hstop⟩

lemma length_ancestors_lt (hn : t.Node root n) (hm : m ∈ t.ancestors n) :
    (t.ancestors m).length < (t.ancestors n).length := by
  induction hn with
  | root =>
    rw [h.ancestors_root] at hm
    cases hm
  | @child n p hn hp ih =>
    rw [h.ancestors_child n p hn hp] at hm ⊢
    rw [List.length_cons]
    rcases List.mem_cons.1 hm with rfl | hm
    · exact Nat.lt_succ_self _
    · exact Nat.lt_succ_of_lt (ih hm)

lemma root_mem (hn : t.Node root n) : n = root ∨ root ∈ t.ancestors n := by
  induction hn with
  | root => exact .inl rfl
  | @child n m hn hm ih =>
    rw [h.ancestors_child n m hn hm]
    rcases ih with rfl | ih
    · exact .inr List.mem_cons_self
    · exact .inr (List.mem_cons_of_mem n ih)

/-- The way from an ancestor down to a node goes through one of the ancestor's children. -/
lemma exists_child_of_mem_ancestors (hm : t.Node root m) (hn : n ∈ t.ancestors m) :
    ∃ c ∈ t.children n, c = m ∨ c ∈ t.ancestors m := by
  induction hm with
  | root =>
    rw [h.ancestors_root] at hn
    cases hn
  | @child q m hq hm ih =>
    rw [h.ancestors_child q m hq hm] at hn ⊢
    rcases List.mem_cons.1 hn with rfl | hn
    · exact ⟨m, hm, .inl rfl⟩
    · obtain ⟨c, hc, rfl | hup⟩ := ih hn
      · exact ⟨c, hc, .inr List.mem_cons_self⟩
      · exact ⟨c, hc, .inr (List.mem_cons_of_mem q hup)⟩

/-- Of two nodes around an offset one is an ancestor of the other: where their ways part, they would
be in siblings, which are apart. The induction is on the way down to the first one. -/
theorem comparable (hn : t.Node root n) (hm : t.Node root m) (hno : (t.span n).Contains o)
    (hmo : (t.span m).Contains o) : m = n ∨ m ∈ t.ancestors n ∨ n ∈ t.ancestors m := by
  induction hn with
  | root =>
    rcases h.root_mem hm with rfl | hroot
    · exact .inl rfl
    · exact .inr (.inr hroot)
  | @child n p hn hp ih =>
    have hup := h.ancestors_child n p hn hp
    have hparent : (t.span n).Contains o :=
      h.contains_of_mem_ancestors (hn.child hp) (by rw [hup]; exact List.mem_cons_self) hno
    rcases ih hparent with rfl | hmem | hmem
    · exact .inr (.inl (by rw [hup]; exact List.mem_cons_self))
    · exact .inr (.inl (by rw [hup]; exact List.mem_cons_of_mem n hmem))
    · obtain ⟨c, hc, hway⟩ := h.exists_child_of_mem_ancestors hm hmem
      have hco : (t.span c).Contains o := by
        rcases hway with rfl | hway
        · exact hmo
        · exact h.contains_of_mem_ancestors hm hway hmo
      have hcp : c = p :=
        Classical.byContradiction fun hne => h.apart n c p hn hc hp hne o hco hno
      rw [hcp] at hway
      rcases hway with rfl | hway
      · exact .inl rfl
      · exact .inr (.inr hway)

/-- On the way up from the deepest node around an offset are just the nodes around it. -/
theorem mem_iff_of_deepest (hn : t.Deepest root o n) :
    m ∈ n :: t.ancestors n ↔ t.Node root m ∧ (t.span m).Contains o := by
  constructor
  · intro hm
    rcases List.mem_cons.1 hm with rfl | hup
    · exact ⟨hn.node, hn.contains⟩
    · exact ⟨h.node_of_mem_ancestors hn.node hup,
        h.contains_of_mem_ancestors hn.node hup hn.contains⟩
  · rintro ⟨hm, hmo⟩
    rcases h.comparable hn.node hm hn.contains hmo with rfl | hup | hdown
    · exact List.mem_cons_self
    · exact List.mem_cons_of_mem n hup
    · have hlt := h.length_ancestors_lt hm hdown
      have hle := hn.depth m hm hmo
      omega

end Laminar
end Tree

namespace Outline

variable {o : Outline} {i j n : Fin o.size} {length fuel fuel' : Nat}

/-- A table that starts with the root, has every other entry behind its parent and inside of it, and
in which entries with one parent are apart. -/
structure Orderly (o : Outline) (root : Fin o.size) : Prop where
  first : root.val = 0
  parent?_root : o[root].parent? = none
  parent : ∀ i, i ≠ root → ∃ p : Fin o.size, p < i ∧ o[i].parent? = some p.val
  inside : ∀ i p : Fin o.size, o[i].parent? = some p.val →
    o[p].span.start ≤ o[i].span.start ∧ o[i].span.stop ≤ o[p].span.stop
  apart : ∀ i j : Fin o.size, i ≠ j → o[i].parent? = o[j].parent? →
    min o[i].span.stop o[j].span.stop ≤ max o[i].span.start o[j].span.start

section Narrowest

variable {k : Nat} {span : Fin k → Span} {i j n : Fin k} {offset : Nat}

/-- The better one of the entries found so far and the next one. -/
def narrower (span : Fin k → Span) (offset : Nat) (best? : Option (Fin k)) (n : Fin k) :
    Option (Fin k) :=
  if (span n).Contains offset then
    match best? with
    | some b =>
      if (span n).stop - (span n).start ≤ (span b).stop - (span b).start then some n else best?
    | none => some n
  else best?

/-- An entry is narrower than another one, or as narrow and not in front of it. -/
def Beats (span : Fin k → Span) (b m : Fin k) : Prop :=
  (span b).stop - (span b).start < (span m).stop - (span m).start ∨
    (span b).stop - (span b).start = (span m).stop - (span m).start ∧ m.val ≤ b.val

lemma Beats.refl (span : Fin k → Span) (n : Fin k) : Beats span n n := .inr ⟨rfl, Nat.le_refl _⟩

lemma Beats.trans (hij : Beats span i j) (hjn : Beats span j n) : Beats span i n := by
  unfold Beats at *
  omega

lemma narrower_spec {best? : Option (Fin k)}
    (hbest : ∀ b, best? = some b → (span b).Contains offset ∧ b < n) :
    (∀ b, narrower span offset best? n = some b → (span b).Contains offset ∧ b ≤ n) ∧
      ∀ m, best? = some m ∨ m = n ∧ (span m).Contains offset →
        ∃ b, narrower span offset best? n = some b ∧ Beats span b m := by
  unfold narrower
  by_cases hn : (span n).Contains offset
  · rw [if_pos hn]
    cases best? with
    | none =>
      refine ⟨fun b hb => ?_, fun m hm => ?_⟩
      · obtain rfl := Option.some.inj hb
        exact ⟨hn, Fin.le_refl _⟩
      · obtain ⟨rfl, -⟩ := hm.resolve_left (by simp)
        exact ⟨_, rfl, .refl span _⟩
    | some b =>
      obtain ⟨hb, hlt⟩ := hbest b rfl
      simp only
      split
      · rename_i hle
        refine ⟨fun c hc => ?_, fun m hm => ⟨_, rfl, ?_⟩⟩
        · obtain rfl := Option.some.inj hc
          exact ⟨hn, Fin.le_refl _⟩
        · rcases hm with hm | ⟨rfl, -⟩
          · obtain rfl := Option.some.inj hm
            unfold Beats
            omega
          · exact .refl span _
      · rename_i hle
        refine ⟨fun c hc => ?_, fun m hm => ⟨_, rfl, ?_⟩⟩
        · obtain rfl := Option.some.inj hc
          exact ⟨hb, Fin.le_of_lt hlt⟩
        · rcases hm with hm | ⟨rfl, -⟩
          · obtain rfl := Option.some.inj hm
            exact .refl span _
          · unfold Beats
            omega
  · rw [if_neg hn]
    refine ⟨fun b hb => ⟨(hbest b hb).1, Fin.le_of_lt (hbest b hb).2⟩, fun m hm => ?_⟩
    rcases hm with hm | ⟨rfl, hm⟩
    · exact ⟨m, hm, .refl span m⟩
    · exact absurd hm hn

/-- The entries are taken in their order, so that the last one of those equally narrow is kept. -/
lemma foldl_narrower {xs : List (Fin k)} (hxs : xs.Pairwise (· < ·)) {best? : Option (Fin k)}
    (hbest : ∀ b, best? = some b → (span b).Contains offset ∧ ∀ x ∈ xs, b < x) :
    (∀ b, xs.foldl (narrower span offset) best? = some b → (span b).Contains offset) ∧
      ∀ m, best? = some m ∨ m ∈ xs ∧ (span m).Contains offset →
        ∃ b, xs.foldl (narrower span offset) best? = some b ∧ Beats span b m := by
  induction xs generalizing best? with
  | nil =>
    refine ⟨fun b hb => (hbest b hb).1, fun m hm => ⟨m, ?_, .refl span m⟩⟩
    simpa using hm
  | cons x xs ih =>
    obtain ⟨hlt, hxs⟩ := List.pairwise_cons.1 hxs
    obtain ⟨hkept, hbeats⟩ := narrower_spec (n := x) fun b hb =>
      ⟨(hbest b hb).1, (hbest b hb).2 x List.mem_cons_self⟩
    obtain ⟨hholds, hall⟩ := ih hxs fun b hb =>
      ⟨(hkept b hb).1, fun y hy => Fin.lt_of_le_of_lt (hkept b hb).2 (hlt y hy)⟩
    refine ⟨hholds, fun m hm => ?_⟩
    have hnext (hm : best? = some m ∨ m = x ∧ (span m).Contains offset) :
        ∃ b, (x :: xs).foldl (narrower span offset) best? = some b ∧ Beats span b m := by
      obtain ⟨b, hb, hbm⟩ := hbeats m hm
      obtain ⟨c, hc, hcb⟩ := hall b (.inl hb)
      exact ⟨c, hc, hcb.trans hbm⟩
    rcases hm with hm | ⟨hm, ho⟩
    · exact hnext (.inl hm)
    · rcases List.mem_cons.1 hm with rfl | hm
      · exact hnext (.inr ⟨rfl, ho⟩)
      · exact hall m (.inr ⟨hm, ho⟩)

/-- The narrowest entry holds the offset and beats all others that do. -/
theorem narrowest?_spec (o : Outline) (length offset : Nat) :
    (∀ b, o.narrowest? offset = some b → ((o.tree length).span b).Contains offset) ∧
      ∀ m, ((o.tree length).span m).Contains offset →
        ∃ b, o.narrowest? offset = some b ∧ Beats (o.tree length).span b m := by
  have hfold : o.narrowest? offset =
      (List.finRange o.size).foldl (narrower (o.tree length).span offset) none := by
    unfold narrowest?
    congr 1
    funext best? n
    cases best? <;> rfl
  have hnone : ∀ b, (none : Option (Fin o.size)) = some b →
      ((o.tree length).span b).Contains offset ∧ ∀ x ∈ List.finRange o.size, b < x := by simp
  obtain ⟨hholds, hall⟩ := foldl_narrower (List.pairwise_lt_finRange o.size) hnone
  rw [hfold]
  exact ⟨hholds, fun m hm => hall m (.inr ⟨List.mem_finRange m, hm⟩)⟩

end Narrowest

namespace Orderly

variable {root : Fin o.size} (h : o.Orderly root)

include h

lemma chain_root (fuel : Nat) : o.chain fuel root = [] := by
  cases fuel with
  | zero => rfl
  | succ fuel => rw [chain, h.parent?_root, Option.bind_none]

lemma exists_parent (length : Nat) (hroot : n ≠ root) :
    ∃ p < n, n ∈ (o.tree length).children p := by
  obtain ⟨p, hlt, hp⟩ := h.parent n hroot
  exact ⟨p, hlt, by simpa [tree] using hp⟩

omit h in
lemma chain_of_mem_children (hi : i ∈ (o.tree length).children j) :
    o.chain (fuel + 1) i = j :: o.chain fuel j := by
  have hp : o[i].parent? = some j.val := by simpa [tree] using hi
  have hnode : o.node? j.val = some j := by simp [node?]
  rw [chain, hp, Option.bind_some, hnode]

/-- With as many steps as there are entries in front of a node its chain of parents is complete. -/
lemma chain_eq (hf : n.val ≤ fuel) (hf' : n.val ≤ fuel') : o.chain fuel n = o.chain fuel' n := by
  induction fuel generalizing n fuel' with
  | zero =>
    have hroot : n = root := Fin.ext (by rw [h.first]; omega)
    rw [hroot, h.chain_root, h.chain_root]
  | succ fuel ih =>
    by_cases hroot : n = root
    · rw [hroot, h.chain_root, h.chain_root]
    · obtain ⟨p, hlt, hp⟩ := h.exists_parent 0 hroot
      obtain ⟨fuel', rfl⟩ : ∃ f, fuel' = f + 1 := ⟨fuel' - 1, by omega⟩
      have hle : p.val ≤ fuel := by omega
      have hle' : p.val ≤ fuel' := by omega
      rw [chain_of_mem_children hp, chain_of_mem_children hp, ih hle hle']

lemma lt_of_mem_children (hi : i ∈ (o.tree length).children j) : j < i := by
  have hparent : o[i].parent? = some j.val := by simpa [tree] using hi
  have hroot : i ≠ root := by
    rintro rfl
    rw [h.parent?_root] at hparent
    cases hparent
  obtain ⟨p, hlt, hp⟩ := h.parent i hroot
  rw [hparent] at hp
  rwa [Fin.ext (Option.some.inj hp)]

lemma lt_of_mem_chain (hj : j ∈ o.chain fuel i) : j < i := by
  induction fuel generalizing i with
  | zero => cases hj
  | succ fuel ih =>
    by_cases hroot : i = root
    · rw [hroot, h.chain_root] at hj
      cases hj
    · obtain ⟨p, hlt, hp⟩ := h.exists_parent 0 hroot
      rw [chain_of_mem_children hp] at hj
      rcases List.mem_cons.1 hj with rfl | hj
      · exact hlt
      · exact Fin.lt_trans (ih hj) hlt

/-- Every entry is a node of the tree: its parent is in front of it. -/
theorem node (n : Fin o.size) : (o.tree length).Node root n := by
  by_cases hroot : n = root
  · rw [hroot]
    exact .root
  · obtain ⟨p, hlt, hp⟩ := h.exists_parent length hroot
    exact (node p).child hp
termination_by n.val

theorem laminar : (o.tree length).Laminar root where
  ancestors_root := h.chain_root o.size
  ancestors_child n m _ hm := by
    have hlt := h.lt_of_mem_children hm
    obtain ⟨s, hs⟩ : ∃ s, o.size = s + 1 := ⟨o.size - 1, by omega⟩
    have hchain : o.chain s n = o.chain o.size n := h.chain_eq (by omega) (by omega)
    change o.chain o.size m = n :: o.chain o.size n
    conv => lhs; rw [hs]
    rw [chain_of_mem_children hm, hchain]
  inside n m _ hm := h.inside m n (by simpa [tree] using hm)
  apart n m p _ hm hp hne offset ho ho' := by
    have hm' : o[m].parent? = some n.val := by simpa [tree] using hm
    have hp' : o[p].parent? = some n.val := by simpa [tree] using hp
    have hapart := h.apart m p hne (hm'.trans hp'.symm)
    obtain ⟨hstart, hstop⟩ := ho
    obtain ⟨hstart', hstop'⟩ := ho'
    simp only [tree] at hstart hstop hstart' hstop'
    omega

/-- An orderly table is a tree whose leaf at an offset is the deepest node there. -/
theorem nested : (o.tree length).Nested root length where
  toLaminar := h.laminar
  leafAt?_deepest offset hle hex := by
    obtain ⟨n, -, hn⟩ := hex
    obtain ⟨hholds, hall⟩ := o.narrowest?_spec length offset
    obtain ⟨b, hb, -⟩ := hall n hn
    refine ⟨b, ?_, h.node b, hholds b hb, fun m hm hmo => ?_⟩
    · simp [tree, hle, hb]
    · rcases h.laminar.comparable (h.node b) hm (hholds b hb) hmo with rfl | hup | hdown
      · exact Nat.le_refl _
      · exact Nat.le_of_lt (h.laminar.length_ancestors_lt (h.node b) hup)
      · -- then `m` is not wider and stands behind `b` in the table
        obtain ⟨c, hc, hbeats⟩ := hall m hmo
        obtain rfl := Option.some.inj (hb.symm.trans hc)
        obtain ⟨hstart, hstop⟩ := h.laminar.span_of_mem_ancestors hm hdown
        have hlt := h.lt_of_mem_chain hdown
        obtain ⟨hfrom, hto⟩ := hholds b hb
        unfold Beats at hbeats
        omega
  leafAt?_root offset hle hnone := by
    have hnarrowest : o.narrowest? offset = none := by
      rw [Option.eq_none_iff_forall_not_mem]
      exact fun b hb => hnone ⟨b, h.node b, (o.narrowest?_spec length offset).1 b hb⟩
    have hroot : o.node? 0 = some root := by
      rw [node?, dif_pos (Nat.lt_of_le_of_lt (Nat.zero_le _) root.isLt)]
      exact congrArg some (Fin.ext h.first.symm)
    simp [tree, hle, hnarrowest, hroot]
  leafAt?_past offset hlt := by
    simp [tree, Nat.not_le.2 hlt]

end Orderly
end Outline
end Mend
