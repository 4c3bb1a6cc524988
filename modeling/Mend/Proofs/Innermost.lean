import Mend.Proofs.Lines
import Mend.Proofs.Nesting
import Mend.Syntax.Locate

/-! Which node a finding is about. Going up from the leaf at an offset, the first node of a kind is
the innermost one of all around the offset. -/
namespace Mend
namespace Tree

variable {ν : Type} {t : Tree ν} {root n m p : ν} {k : NodeKind} {o length : Nat}

/-- A node of a kind around an offset. -/
structure Around (t : Tree ν) (root : ν) (k : NodeKind) (o : Nat) (n : ν) : Prop where
  node : t.Node root n
  kind : t.kind n = k
  contains : (t.span n).Contains o

/-- The node of a kind around an offset that all others of the kind around it are ancestors of. -/
structure Innermost (t : Tree ν) (root : ν) (k : NodeKind) (o : Nat) (n : ν) : Prop
    extends t.Around root k o n where
  others : ∀ m, t.Around root k o m → m ≠ n → m ∈ t.ancestors n

/-- The way from a node to its parent, from there to the parent's parent, and so on. It ends at the
first node of a kind or behind the root. -/
inductive Climb (t : Tree ν) (k : NodeKind) : ν → Option ν → Prop
  | found {n : ν} : t.kind n = k → Climb t k n (some n)
  | parent {n p : ν} {r? : Option ν} : t.kind n ≠ k → t.parent? n = some p → Climb t k p r? →
    Climb t k n r?
  | root {n : ν} : t.kind n ≠ k → t.parent? n = none → Climb t k n none

lemma enclosing?_self (hk : t.kind n = k) : t.enclosing? k n = some n := by
  simp [enclosing?, hk]

lemma enclosing?_of_ne (hk : t.kind n ≠ k) :
    t.enclosing? k n = (t.ancestors n).find? fun m => t.kind m = k := by
  simp [enclosing?, hk]

namespace Laminar

variable (h : t.Laminar root)

include h

lemma enclosing?_root (hk : t.kind root ≠ k) : t.enclosing? k root = none := by
  rw [enclosing?_of_ne hk, h.ancestors_root, List.find?_nil]

lemma enclosing?_child (hn : t.Node root n) (hm : m ∈ t.children n) (hk : t.kind m ≠ k) :
    t.enclosing? k m = t.enclosing? k n := by
  rw [enclosing?_of_ne hk, h.ancestors_child n m hn hm, enclosing?]

/-- Looking for a kind is going up by parents, and this ends. -/
theorem climb (hn : t.Node root n) : t.Climb k n (t.enclosing? k n) := by
  induction hn with
  | root =>
    by_cases hk : t.kind root = k
    · rw [enclosing?_self hk]
      exact .found hk
    · rw [h.enclosing?_root hk]
      exact .root hk (by rw [parent?, h.ancestors_root, List.head?_nil])
  | @child n m hn hm ih =>
    by_cases hk : t.kind m = k
    · rw [enclosing?_self hk]
      exact .found hk
    · rw [h.enclosing?_child hn hm hk]
      exact .parent hk (by rw [parent?, h.ancestors_child n m hn hm, List.head?_cons]) ih

/-- Of the nodes of a kind on the way up the first one is below all others. -/
lemma mem_ancestors_of_enclosing? (hn : t.Node root n) (hp : t.enclosing? k n = some p)
    (hm : m ∈ n :: t.ancestors n) (hk : t.kind m = k) (hne : m ≠ p) : m ∈ t.ancestors p := by
  induction hn with
  | root =>
    rw [h.ancestors_root] at hm
    obtain rfl := List.mem_singleton.1 hm
    rw [enclosing?_self hk] at hp
    exact absurd (Option.some.inj hp) hne
  | @child q n hq hn ih =>
    by_cases hkn : t.kind n = k
    · rw [enclosing?_self hkn] at hp
      obtain rfl := Option.some.inj hp
      exact (List.mem_cons.1 hm).resolve_left hne
    · rw [h.enclosing?_child hq hn hkn] at hp
      have hup : m ∈ t.ancestors n :=
        (List.mem_cons.1 hm).resolve_left fun heq => hkn (by rw [← heq, hk])
      exact ih hp (h.ancestors_child q n hq hn ▸ hup)

end Laminar

namespace Nested

variable (h : t.Nested root length)

include h

/-- Where there is a node of a kind around an offset, the innermost one is found. -/
theorem enclosingAt?_innermost (ho : o ≤ length) (hex : ∃ m, t.Around root k o m) :
    ∃ n, t.enclosingAt? k o = some n ∧ t.Innermost root k o n := by
  obtain ⟨m, hm⟩ := hex
  obtain ⟨leaf, hleaf, hdeep⟩ := h.leafAt?_deepest o ho ⟨m, hm.node, hm.contains⟩
  have hway {x : ν} (hx : t.Around root k o x) : x ∈ leaf :: t.ancestors leaf :=
    (h.mem_iff_of_deepest hdeep).2 ⟨hx.node, hx.contains⟩
  obtain ⟨n, hn⟩ : ∃ n, t.enclosing? k leaf = some n :=
    Option.isSome_iff_exists.1 (List.find?_isSome.2 ⟨m, hway hm, by simpa using hm.kind⟩)
  obtain ⟨hnode, hcontains⟩ := (h.mem_iff_of_deepest hdeep).1 (mem_of_enclosing? hn)
  refine ⟨n, by rw [enclosingAt?, hleaf, Option.bind_some, hn],
    ⟨hnode, kind_of_enclosing? hn, hcontains⟩, fun x hx hne => ?_⟩
  exact h.mem_ancestors_of_enclosing? hdeep.node hn (hway hx) hx.kind hne

/-- Where there is none, nothing is found: if no node at all is around the offset the root answers,
which is of another kind. -/
theorem enclosingAt?_eq_none (hk : k ≠ t.kind root) (ho : o ≤ length)
    (hnone : ¬ ∃ n, t.Around root k o n) : t.enclosingAt? k o = none := by
  by_cases hex : ∃ n, t.Node root n ∧ (t.span n).Contains o
  · obtain ⟨leaf, hleaf, hdeep⟩ := h.leafAt?_deepest o ho hex
    rw [enclosingAt?, hleaf, Option.bind_some, enclosing?, List.find?_eq_none]
    intro x hx hkx
    obtain ⟨hnode, hcontains⟩ := (h.mem_iff_of_deepest hdeep).1 hx
    exact hnone ⟨x, hnode, by simpa using hkx, hcontains⟩
  · rw [enclosingAt?, h.leafAt?_root o ho hex, Option.bind_some, h.enclosing?_root hk.symm]

end Nested
end Tree

variable {ν : Type} {t : Tree ν} {d : Document} {diag : Diagnostic} {root : ν} {k : NodeKind}
  {line o start : Nat}

lemma anchor?_eq_none (h : d.lineCount ≤ line) : anchor? d diag line = none := by
  have hstart : d.lineStart? line = none := by
    rw [← Option.not_isSome_iff_eq_none, Document.lineStart?_isSome]
    omega
  simp [anchor?, Document.lineSpan?, hstart]

/-- Every line of the document has an anchor on it. -/
lemma exists_anchor? (diag : Diagnostic) (h : line < d.lineCount) : ∃ start o,
    d.lineStart? line = some start ∧ anchor? d diag line = some o ∧ o ≤ d.length := by
  obtain ⟨start, hstart⟩ := Option.isSome_iff_exists.1 (Document.lineStart?_isSome.2 h)
  obtain ⟨text, htext⟩ := Option.isSome_iff_exists.1 (Document.lineText?_isSome.2 h)
  have hspan : d.lineSpan? line = some ⟨start, start + text.length⟩ := by
    simp [Document.lineSpan?, Document.lineStop?, hstart, htext]
  obtain ⟨-, hle⟩ := Document.lineSpan?_within hspan
  simp only [anchor?, hspan]
  exact ⟨start, _, hstart, rfl, Nat.le_trans (Nat.min_le_right _ _) hle⟩

lemma locate?_eq (hstart : d.lineStart? line = some start) (ho : anchor? d diag line = some o) :
    locate? t d diag line k =
      (t.enclosingAt? k o).or (if start < o then t.enclosingAt? k (o - 1) else none) := by
  rw [locate?, ho, hstart]

/-- A finding is about the innermost node of a kind around its anchor. If there is none, it is about
the innermost one around the character in front of the anchor, if that is on the line; if there is
none there either, or no such line, it is about no node. -/
theorem locate?_innermost (h : t.Nested root d.length) (hk : k ≠ t.kind root) (diag : Diagnostic)
    (line : Nat) :
    (∀ n, t.Node root n → t.Climb k n (t.enclosing? k n)) ∧
    (d.lineCount ≤ line → locate? t d diag line k = none) ∧
    (line < d.lineCount → ∃ start o, d.lineStart? line = some start ∧
      anchor? d diag line = some o ∧
      ((∃ n, t.Around root k o n) →
        ∃ n, locate? t d diag line k = some n ∧ t.Innermost root k o n) ∧
      ((¬ ∃ n, t.Around root k o n) → start < o → (∃ n, t.Around root k (o - 1) n) →
        ∃ n, locate? t d diag line k = some n ∧ t.Innermost root k (o - 1) n) ∧
      ((¬ ∃ n, t.Around root k o n) → ¬ (start < o ∧ ∃ n, t.Around root k (o - 1) n) →
        locate? t d diag line k = none)) := by
  refine ⟨fun n hn => h.climb hn, fun hline => ?_, fun hline => ?_⟩
  · rw [locate?, anchor?_eq_none hline]
  · obtain ⟨start, o, hstart, ho, hle⟩ := exists_anchor? diag hline
    have hbefore : o - 1 ≤ d.length := Nat.le_trans (Nat.sub_le o 1) hle
    refine ⟨start, o, hstart, ho, fun hex => ?_, fun hnone hlt hex => ?_, fun hnone hno => ?_⟩
    · obtain ⟨n, hn, hinner⟩ := h.enclosingAt?_innermost hle hex
      exact ⟨n, by rw [locate?_eq hstart ho, hn, Option.some_or], hinner⟩
    · obtain ⟨n, hn, hinner⟩ := h.enclosingAt?_innermost hbefore hex
      refine ⟨n, ?_, hinner⟩
      rw [locate?_eq hstart ho, h.enclosingAt?_eq_none hk hle hnone, Option.none_or, if_pos hlt, hn]
    · rw [locate?_eq hstart ho, h.enclosingAt?_eq_none hk hle hnone, Option.none_or]
      split
      · rename_i hlt
        exact h.enclosingAt?_eq_none hk hbefore fun hex => hno ⟨hlt, hex⟩
      · rfl

/-- A report just behind a comment is about the comment. -/
theorem locate?_behind_comment :
    let d := Document.ofString "// a\nx\n"
    let table : Outline := #[⟨.sourceFile, ⟨0, 7⟩, d.chars, none, none, none⟩,
      ⟨.comment, ⟨0, 4⟩, "// a".toList, some 0, none, none⟩,
      ⟨.reference, ⟨5, 6⟩, ['x'], some 0, none, none⟩]
    let t := table.tree d.length
    let root : Fin table.size := ⟨0, by decide⟩
    let diag : Diagnostic := ⟨"godot", "", "a.go", 1, 5, none, "godot"⟩
    t.Nested root d.length ∧ .comment ≠ t.kind root ∧
      ∃ n, locate? t d diag 0 .comment = some n ∧ t.Innermost root .comment 3 n := by
  intro d table t root diag
  have horderly : table.Orderly root :=
    ⟨rfl, rfl, by decide +kernel, by decide +kernel, by decide +kernel⟩
  have hnested : t.Nested root d.length := horderly.nested
  have hkind : .comment ≠ t.kind root := by decide +kernel
  obtain ⟨-, -, hline⟩ := locate?_innermost hnested hkind diag 0
  obtain ⟨start, o, hstart, ho, -, hretry, -⟩ := hline (by decide +kernel)
  have hstart' : d.lineStart? 0 = some 0 := by decide +kernel
  have ho' : anchor? d diag 0 = some 4 := by decide +kernel
  obtain rfl : 0 = start := Option.some.inj (hstart'.symm.trans hstart)
  obtain rfl : 4 = o := Option.some.inj (ho'.symm.trans ho)
  refine ⟨hnested, hkind, hretry ?_ (by decide) ?_⟩
  · rintro ⟨n, -, hk, hcontains⟩
    revert n
    decide +kernel
  · exact ⟨⟨1, by decide⟩, horderly.node _, by decide +kernel, by decide +kernel⟩

end Mend
