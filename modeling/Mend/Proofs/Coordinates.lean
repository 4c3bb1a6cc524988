import Mathlib.Data.List.Find
import Mathlib.Order.Bounds.Basic
import Mathlib.Order.Monotone.Basic
import Mend.Proofs.Bytes
import Mend.Proofs.Go.Leaves
import Mend.Proofs.Go.Spans
import Mend.Text.Document

/-! Places in characters and places in bytes. Each place between characters is one between bytes, in
the same order, so that texts cut by the one and by the other are the same, and a tree whose nodes
are placed in bytes has the same leaves. -/
namespace Mend

namespace Text

variable {cs xs ys : List Char} {b p q o n m : Nat}

lemma byteLength_append (xs ys : List Char) :
    byteLength (xs ++ ys) = byteLength xs + byteLength ys := by
  rw [← length_utf8, utf8_append, List.length_append, length_utf8, length_utf8]

/-- A place between characters, or at one of the ends of a text, counted in bytes. -/
def Boundary (cs : List Char) (b : Nat) : Prop := ∃ xs ys, xs ++ ys = cs ∧ byteLength xs = b

lemma boundary_byteOffset (cs : List Char) (o : Nat) : Boundary cs (byteOffset cs o) :=
  ⟨cs.take o, cs.drop o, List.take_append_drop o cs, rfl⟩

lemma byteOffset_mono (cs : List Char) (h : n ≤ m) : byteOffset cs n ≤ byteOffset cs m := by
  obtain ⟨k, rfl⟩ := Nat.exists_eq_add_of_le h
  rw [byteOffset, byteOffset, List.take_add, byteLength_append]
  exact Nat.le_add_right _ _

lemma byteOffset_le (cs : List Char) (o : Nat) : byteOffset cs o ≤ byteLength cs := by
  have hsplit := byteLength_append (cs.take o) (cs.drop o)
  rw [List.take_append_drop] at hsplit
  rw [byteOffset, hsplit]
  exact Nat.le_add_right _ _

lemma charOffset_mono (cs : List Char) (h : p ≤ q) : charOffset cs p ≤ charOffset cs q := by
  induction cs generalizing p q with
  | nil => exact Nat.le_refl _
  | cons c cs ih =>
    have hrest := ih (Nat.sub_le_sub_right h c.utf8Size)
    simp only [charOffset]
    split <;> split <;> omega

lemma byteOffset_charOffset_le (cs : List Char) (b : Nat) :
    byteOffset cs (charOffset cs b) ≤ b := by
  induction cs generalizing b with
  | nil => exact Nat.zero_le _
  | cons c cs ih =>
    have hrest := ih (b - c.utf8Size)
    simp only [charOffset]
    split
    · simp
    · rw [byteOffset_cons_succ]
      omega

/-- Places between characters are the same in both counts. -/
lemma Boundary.byteOffset_charOffset (h : Boundary cs b) : byteOffset cs (charOffset cs b) = b := by
  obtain ⟨xs, ys, rfl, rfl⟩ := h
  have hplace : byteOffset (xs ++ ys) xs.length = byteLength xs := by
    rw [byteOffset, List.take_left]
  rw [← hplace, charOffset_byteOffset, Nat.min_eq_left (by simp)]

lemma strictMonoOn_byteOffset (cs : List Char) :
    StrictMonoOn (byteOffset cs) (Set.Iic cs.length) := by
  intro n hn m hm hlt
  refine Nat.lt_of_le_of_ne (byteOffset_mono cs (Nat.le_of_lt hlt)) fun heq => ?_
  have hchars := congrArg (charOffset cs) heq
  rw [charOffset_byteOffset, charOffset_byteOffset, Nat.min_eq_left hn,
    Nat.min_eq_left hm] at hchars
  omega

/-- From a place inside a character it is back to where the character starts. -/
theorem isGreatest_byteOffset_charOffset (cs : List Char) (b : Nat) :
    IsGreatest {p | Boundary cs p ∧ p ≤ min b (byteLength cs)}
      (byteOffset cs (charOffset cs b)) := by
  refine ⟨⟨boundary_byteOffset _ _,
    Nat.le_min.2 ⟨byteOffset_charOffset_le cs b, byteOffset_le cs _⟩⟩, ?_⟩
  rintro p ⟨hp, hle⟩
  rw [← hp.byteOffset_charOffset]
  exact byteOffset_mono cs (charOffset_mono cs (Nat.le_trans hle (Nat.min_le_left _ _)))

/-- The bytes between two places are those of the characters between them. -/
theorem utf8_slice (cs : List Char) (h : n ≤ m) :
    utf8 ((Document.mk cs).slice ⟨n, m⟩) =
      ((utf8 cs).take (byteOffset cs m)).drop (byteOffset cs n) := by
  have hstop : (utf8 cs).take (byteOffset cs m) = utf8 (cs.take m) := by
    have := take_utf8 (cs.take m) (cs.drop m)
    rwa [List.take_append_drop] at this
  have hstart : (cs.take m).take n = cs.take n := by
    rw [List.take_take, Nat.min_eq_left h]
  have := drop_utf8 ((cs.take m).take n) ((cs.take m).drop n)
  rw [List.take_append_drop, hstart] at this
  rw [hstop, Document.slice, ← this]
  rfl

end Text

namespace Go

open Text

mutual

/-- The same node with its places, and those of all nodes below it, told by another count. -/
def Node.place (f : Nat → Nat) : Node → Node
  | .mk role? kind span children => .mk role? kind ⟨f span.start, f span.stop⟩ (placeAll f children)

def placeAll (f : Nat → Nat) : List Node → List Node
  | [] => []
  | n :: ns => n.place f :: placeAll f ns

end

variable {f : Nat → Nat} {N : Nat}

lemma placeAll_eq (f : Nat → Nat) (ns : List Node) : placeAll f ns = ns.map (Node.place f) := by
  induction ns with
  | nil => rfl
  | cons n ns ih => rw [placeAll, ih, List.map_cons]

@[simp] lemma Node.span_place (f : Nat → Nat) (n : Node) :
    (n.place f).span = ⟨f n.span.start, f n.span.stop⟩ := by
  cases n
  rfl

@[simp] lemma Node.children_place (f : Nat → Nat) (n : Node) :
    (n.place f).children = n.children.map (Node.place f) := by
  cases n
  exact placeAll_eq f _

/-- What a node holds does not depend on the count. -/
lemma Node.holds_place (hf : StrictMonoOn f (Set.Iic N)) {n : Node} (hn : n.span.Within N) {o : Nat}
    (ho : o ≤ N) : (n.place f).holds (f o) = n.holds o := by
  have hstop : n.span.stop ∈ Set.Iic N := hn.2
  have hstart : n.span.start ∈ Set.Iic N := Nat.le_trans hn.1 hn.2
  simp only [Node.holds, Node.span_place, hf.le_iff_le hstart ho, hf.lt_iff_lt ho hstop,
    hf.eq_iff_eq hstart hstop, hf.eq_iff_eq ho hstop]

def Cursor.place (f : Nat → Nat) (c : Cursor) : Cursor :=
  ⟨c.node.place f, c.around.map (Node.place f)⟩

/-- The way down to a place is the same in every count. -/
theorem Cursor.descend_place (hf : StrictMonoOn f (Set.Iic N)) {o : Nat} (ho : o ≤ N) (fuel : Nat)
    {c : Cursor} (hc : c.node.All fun n => n.span.Within N) :
    descend (f o) fuel (c.place f) = (descend o fuel c).place f := by
  induction fuel generalizing c with
  | zero => rfl
  | succ fuel ih =>
    have hfind : (c.place f).node.children.find? (·.holds (f o)) =
        (c.node.children.find? (·.holds o)).map (Node.place f) := by
      have hholds (n : Node) (hn : n ∈ c.node.children) :
          (n.place f).holds (f o) = n.holds o := Node.holds_place hf (hc.child hn).self ho
      rw [Cursor.place, Node.children_place, List.find?_map]
      exact congrArg _ (List.find?_congr hholds)
    rw [descend, descend, hfind]
    cases h : c.node.children.find? (·.holds o) with
    | none => rfl
    | some n => exact ih (c := c.child n) (hc.child (List.mem_of_find?_eq_some h))

/-- The node with its places told in bytes. -/
def Cursor.inBytes (text : List Char) (c : Cursor) : Cursor := c.place (byteOffset text)

/-- The leaf at a byte, in the tree whose nodes are placed in bytes. -/
def File.leafAtByte (f : File) (b : Nat) : Cursor :=
  Cursor.descend b ((f.chars.length + 1) * depthPerToken) (f.rootCursor.inBytes f.chars)

variable {text : List Char}

/-- Looking for a leaf in bytes and looking for it in characters is one. -/
theorem leafAtByte_byteOffset {o : Nat} {c : Cursor} (h : (parse text).leafAt? o = some c) :
    (parse text).leafAtByte (byteOffset text o) = c.inBytes text := by
  have hroot : (parse text).rootCursor.node.All fun n => n.span.Within text.length :=
    fun n hn => (root_stands text n hn).within
  rw [File.leafAt?, chars_parse] at h
  split at h
  · rename_i ho
    obtain rfl := Option.some.inj h
    rw [File.leafAtByte, chars_parse]
    exact Cursor.descend_place (strictMonoOn_byteOffset text) ho _ hroot
  · cases h

lemma span_inBytes (text : List Char) (c : Cursor) : (c.inBytes text).node.span =
    ⟨byteOffset text c.node.span.start, byteOffset text c.node.span.stop⟩ :=
  Node.span_place _ _

lemma slice_span (text : List Char) (c : Cursor) :
    (Document.mk text).slice ((parse text).tree.span c) = (parse text).tree.text c := by
  simp only [File.tree, chars_parse]
  rfl

/-- The bytes that a node covers are those of its text. -/
lemma utf8_text {c : Cursor} (h : (parse text).tree.Reachable c) :
    ((utf8 text).take (c.inBytes text).node.span.stop).drop (c.inBytes text).node.span.start =
      utf8 ((parse text).tree.text c) := by
  rw [← slice_span, span_inBytes]
  exact (utf8_slice text (tree_within text c h).1).symm

/-- Characters and bytes count the same places. Going from characters to bytes and back leads to
the same place, and from bytes to characters and back to the last place between characters; the
nodes of a Go tree, placed in bytes, cover the bytes of their texts and come to be placed in
characters where the document has these texts; and a leaf is found, in either count, for every place
that there is. -/
theorem coordinates_agree (text : List Char) :
    (∀ o, charOffset text (byteOffset text o) = min o text.length) ∧
      (∀ b, IsGreatest {p | Boundary text p ∧ p ≤ min b (byteLength text)}
        (byteOffset text (charOffset text b))) ∧
      (∀ c, (parse text).tree.Reachable c →
        let bytes := (c.inBytes text).node.span
        Boundary text bytes.start ∧ Boundary text bytes.stop ∧
          bytes.Within (byteLength text) ∧
          (parse text).tree.span c = ⟨charOffset text bytes.start, charOffset text bytes.stop⟩ ∧
          String.fromUTF8? ⟨(((utf8 text).take bytes.stop).drop bytes.start).toArray⟩ =
            some (String.ofList ((parse text).tree.text c)) ∧
          (Document.mk text).slice ((parse text).tree.span c) = (parse text).tree.text c) ∧
      ∀ o, (((parse text).tree.leafAt? o).isSome ↔ o ≤ text.length) ∧
        ∀ c, (parse text).tree.leafAt? o = some c →
          (parse text).leafAtByte (byteOffset text o) = c.inBytes text := by
  refine ⟨charOffset_byteOffset text, isGreatest_byteOffset_charOffset text, fun c hc => ?_,
    fun o => ⟨?_, fun c hc => leafAtByte_byteOffset hc⟩⟩
  · have hwithin := tree_within text c hc
    have hcharOffset {o : Nat} (ho : o ≤ text.length) :
        charOffset text (byteOffset text o) = o := by
      rw [charOffset_byteOffset, Nat.min_eq_left ho]
    have hread : String.fromUTF8? ⟨(((utf8 text).take (c.inBytes text).node.span.stop).drop
        (c.inBytes text).node.span.start).toArray⟩ =
          some (String.ofList ((parse text).tree.text c)) := by
      rw [fromUTF8?_eq_some_iff, String.toList_ofList, utf8_text hc]
    rw [span_inBytes] at hread ⊢
    refine ⟨boundary_byteOffset text _, boundary_byteOffset text _,
      ⟨byteOffset_mono text hwithin.1, byteOffset_le text _⟩, ?_, hread, slice_span text c⟩
    have hstart : charOffset text (byteOffset text c.node.span.start) = c.node.span.start :=
      hcharOffset (Nat.le_trans hwithin.1 hwithin.2)
    have hstop : charOffset text (byteOffset text c.node.span.stop) = c.node.span.stop :=
      hcharOffset hwithin.2
    rw [hstart, hstop]
    rfl
  · simp only [File.tree, File.leafAt?, chars_parse]
    split <;> simp_all

end Go
end Mend
