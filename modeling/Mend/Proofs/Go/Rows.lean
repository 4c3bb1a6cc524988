import Mend.Proofs.Go.Leaves
import Mend.Proofs.Go.Spans

/-! The order of the nodes of a Go tree: the children of a node stand within it, one behind the
other, so that nodes which do not stand within each other have no character in common. -/
namespace Mend.Go

/-- Nodes that stand one behind the other between two offsets. -/
def Row (start stop : Nat) : List Node → Prop
  | [] => start ≤ stop
  | n :: ns => start ≤ n.span.start ∧ n.span.start ≤ n.span.stop ∧ Row n.span.stop stop ns

namespace Row

variable {a b c : Nat} {ms ns : List Node}

theorem start_le_stop (h : Row a b ns) : a ≤ b := by
  induction ns generalizing a with
  | nil => exact h
  | cons n ns ih =>
    obtain ⟨hstart, hle, hns⟩ := h
    exact Nat.le_trans hstart (Nat.le_trans hle (ih hns))

theorem append (hm : Row a b ms) (hn : Row b c ns) : Row a c (ms ++ ns) := by
  induction ms generalizing a with
  | nil =>
    cases ns with
    | nil => exact Nat.le_trans hm hn
    | cons n ns => exact ⟨Nat.le_trans hm hn.1, hn.2⟩
  | cons m ms ih => exact ⟨hm.1, hm.2.1, ih hm.2.2⟩

theorem of_append (h : Row a c (ms ++ ns)) : ∃ b, Row a b ms ∧ Row b c ns := by
  induction ms generalizing a with
  | nil => exact ⟨a, Nat.le_refl _, h⟩
  | cons m ms ih =>
    obtain ⟨b, hms, hns⟩ := ih h.2.2
    exact ⟨b, ⟨h.1, h.2.1, hms⟩, hns⟩

theorem mono (h : Row a b ns) (hbc : b ≤ c) : Row a c ns := by
  have hnil : Row b c [] := hbc
  simpa using h.append hnil

theorem bounds (h : Row a b ns) :
    ∀ n ∈ ns, a ≤ n.span.start ∧ n.span.start ≤ n.span.stop ∧ n.span.stop ≤ b := by
  intro n hn
  obtain ⟨front, behind, rfl⟩ := List.append_of_mem hn
  obtain ⟨m, hfront, hstart, hle, hbehind⟩ := h.of_append
  exact ⟨Nat.le_trans hfront.start_le_stop hstart, hle, hbehind.start_le_stop⟩

/-- Two nodes in a row are the same one, or one of them ends before the other one starts. -/
theorem apart (h : Row a b ns) {m n : Node} (hm : m ∈ ns) (hn : n ∈ ns) :
    m = n ∨ m.span.stop ≤ n.span.start ∨ n.span.stop ≤ m.span.start := by
  induction ns generalizing a with
  | nil => cases hm
  | cons x xs ih =>
    have hbehind : ∀ y ∈ xs, x.span.stop ≤ y.span.start := fun y hy => (h.2.2.bounds y hy).1
    rcases List.mem_cons.1 hm with rfl | hm'
    · exact (List.mem_cons.1 hn).imp Eq.symm fun hn' => .inl (hbehind n hn')
    · rcases List.mem_cons.1 hn with rfl | hn'
      · exact .inr (.inr (hbehind m hm'))
      · exact ih h.2.2 hm' hn'

/-- A row starts with its first node. -/
theorem from_head (h : Row a b ns) : Row ((ns.head?.map (·.span.start)).getD b) b ns := by
  cases ns with
  | nil => exact Nat.le_refl _
  | cons n ns => exact ⟨Nat.le_refl _, h.2⟩

theorem of_spans {ms ns : List Node} (h : Row a b ms)
    (hspans : ms.map Node.span = ns.map Node.span) : Row a b ns := by
  induction ms generalizing a ns with
  | nil =>
    obtain rfl : ns = [] := by simpa using hspans.symm
    exact h
  | cons m ms ih =>
    cases ns with
    | nil => cases hspans
    | cons n ns =>
      obtain ⟨hn, hns⟩ := List.cons.inj hspans
      obtain ⟨hstart, hle, hms⟩ := h
      rw [hn] at hstart hle hms
      exact ⟨hstart, hle, ih hms hns⟩

theorem of_tiles (h : Tiles a b ns) : Row a b ns := by
  induction ns generalizing a with
  | nil => exact Nat.le_of_eq h
  | cons n ns ih =>
    obtain ⟨-, -, rfl, hle, hns⟩ := h
    exact ⟨Nat.le_refl _, hle, ih hns⟩

end Row

/-- Tokens that are laid out in a text give nodes that stand in a row. -/
lemma Laid.row {text : List Char} {a : Nat} {ts : List Token} (h : Laid text a ts) :
    Row a text.length (ts.map Node.ofToken) := by
  induction ts generalizing a with
  | nil => exact h
  | cons t ts ih =>
    obtain ⟨hstart, -, hts⟩ := h
    simp only [List.map_cons, Row, Node.span_ofToken]
    exact ⟨hstart, Nat.le_add_right _ _, ih hts⟩

namespace Node

/-- The children of a node stand within it, one behind the other. -/
def Ordered (n : Node) : Prop := Row n.span.start n.span.stop n.children

variable {text : List Char}

lemma ordered_leaf {n : Node} (hchildren : n.children = []) (h : n.span.start ≤ n.span.stop) :
    n.All Ordered := by
  refine all_iff.2 ⟨?_, by simp [hchildren]⟩
  rwa [Ordered, hchildren]

lemma ordered_of_tiles {a b : Nat} {ns : List Node} (h : Tiles a b ns) :
    ∀ n ∈ ns, n.All Ordered := by
  induction ns generalizing a with
  | nil => simp
  | cons m ns ih =>
    obtain ⟨hchildren, -, rfl, hle, hns⟩ := h
    intro n hn
    rcases List.mem_cons.1 hn with rfl | hn
    · exact ordered_leaf hchildren hle
    · exact ih hns n hn

lemma ordered_ofToken {t : Token} (h : t.Stands text) : (ofToken t).All Ordered := by
  rcases ofToken_cases t with hchildren | ⟨hquotes, hstring⟩
  · exact ordered_leaf hchildren (by simp [Token.stop])
  · have htiles := tiles_ofString (h.quotes hquotes)
    rw [hstring]
    refine all_iff.2 ⟨?_, ordered_of_tiles htiles⟩
    rw [Ordered, span_ofString]
    exact .of_tiles htiles

lemma ordered_ofRead {kind? : Option Kind} {t : Token} (h : t.Stands text) :
    (ofRead kind? t).All Ordered := by
  cases kind? with
  | none => exact ordered_ofToken h
  | some kind => exact ordered_leaf rfl (Nat.le_add_right _ _)

lemma ordered_withRole {role : Role} {n : Node} (h : n.All Ordered) :
    (n.withRole role).All Ordered := by
  obtain ⟨role?, hrole⟩ := withRole_eq role n
  have hn := all_iff.1 h
  exact hrole ▸ all_iff.2 hn

end Node

/-- A place that reading a text gets to: the tokens left are those at the end of the text, and they
are laid out behind it. -/
structure Reading.Of (text : List Char) (r : Reading) : Prop where
  suffix : r.rest <:+ tokenize text
  laid : Laid text r.last r.rest

lemma Reading.of_start (text : List Char) : Of text ⟨tokenize text, 0⟩ :=
  ⟨List.suffix_refl _, laid_tokenize text⟩

/-- What reading a token does: the token is read where it stands, and between the last one and this
one there are comments, of one character at least each. -/
theorem Reading.Of.token? {text : List Char} {r s : Reading} {t : Terminal} {nodes : List Node}
    {read : Token} (hr : r.Of text) (h : r.token? t = some (nodes, read, s)) :
    s.Of text ∧ read.Stands text ∧ s.last = read.stop ∧ Row r.last read.start nodes ∧
      ∀ n ∈ nodes, n.kind = .comment ∧ n.children = [] ∧ n.span.start < n.span.stop := by
  obtain ⟨comments, hrest, hc, -, -, rfl, hlast⟩ := Reading.eq_of_token? h
  obtain ⟨⟨front, hfront⟩, hlaid⟩ := hr
  rw [hrest] at hfront hlaid
  obtain ⟨hall, -, hread, hs⟩ := hlaid.split
  have hrow := hlaid.row
  rw [List.map_append] at hrow
  obtain ⟨b, hcomments, hbehind⟩ := hrow.of_append
  simp only [List.map_cons, Row, Node.span_ofToken] at hbehind
  refine ⟨⟨⟨front ++ comments ++ [read], by simp [← hfront]⟩, hlast ▸ hs⟩, hread, hlast,
    hcomments.mono hbehind.1, fun n hn => ?_⟩
  obtain ⟨c, hmem, rfl⟩ := List.mem_map.1 hn
  have hchars : c.chars ≠ [] := by simp [(hall c hmem).1.empty_iff, hc c hmem]
  have hlen := List.length_pos_iff.2 hchars
  refine ⟨Node.kind_ofToken.2 (hc c hmem), by simp [Node.ofToken, hc c hmem, Node.leaf], ?_⟩
  simp only [Node.span_ofToken, Token.stop]
  omega

/-- What is read stands in a row between the places where reading starts and ends. -/
def ordering (text : List Char) : Pattern.Invariant where
  At := Reading.Of text
  Over r a s := Row r.last s.last a ∧ ∀ n ∈ a, n.All Node.Ordered
  nil _ := ⟨Nat.le_refl _, by simp⟩
  append ha hb := ⟨ha.1.append hb.1, fun n hn => (List.mem_append.1 hn).elim (ha.2 n) (hb.2 n)⟩
  enclose := by
    rintro r a s kind - - ⟨hrow, ha⟩
    rcases enclose_cases kind s.last a with ⟨h, -⟩ | ⟨comments, first, rest, rfl, -, h⟩
    · rw [h]
      exact ⟨hrow, ha⟩
    · rw [h]
      obtain ⟨b, hcomments, hstart, hle, hrest⟩ := hrow.of_append
      have hchildren : Row first.span.start s.last (first :: rest) := ⟨Nat.le_refl _, hle, hrest⟩
      refine ⟨hcomments.append ⟨hstart, hchildren.start_le_stop, Nat.le_refl _⟩, fun n hn => ?_⟩
      rcases List.mem_append.1 hn with hn | hn
      · exact ha n (List.mem_append_left _ hn)
      · obtain rfl := List.mem_singleton.1 hn
        exact Node.all_iff.2 ⟨hchildren, fun c hc => ha c (List.mem_append_right _ hc)⟩
  labelled := by
    rintro role? r a s ⟨hrow, ha⟩
    cases role? with
    | none => exact ⟨hrow, ha⟩
    | some role =>
      refine ⟨hrow.of_spans (by simp [labelled]), fun n hn => ?_⟩
      obtain ⟨m, hm, rfl⟩ := List.mem_map.1 hn
      exact Node.ordered_withRole (ha m hm)
  token := by
    rintro r t kind? nodes read s - - hat hr
    obtain ⟨hat', hread, hlast, hrow, hnodes⟩ := hat.token? hr
    refine ⟨hat', hrow.append ?_, fun n hn => ?_⟩
    · simp only [Row, Node.span_ofRead, hlast]
      exact ⟨Nat.le_refl _, Nat.le_add_right _ _, Nat.le_refl _⟩
    · rcases List.mem_append.1 hn with hn | hn
      · exact Node.ordered_leaf (hnodes n hn).2.1 (Nat.le_of_lt (hnodes n hn).2.2)
      · obtain rfl := List.mem_singleton.1 hn
        exact Node.ordered_ofRead hread
  hidden := by
    rintro r t nodes read s - hat hr
    obtain ⟨hat', -, hlast, hrow, hnodes⟩ := hat.token? hr
    exact ⟨hat', hrow.mono (hlast ▸ Nat.le_add_right _ _), fun n hn =>
      Node.ordered_leaf (hnodes n hn).2.1 (Nat.le_of_lt (hnodes n hn).2.2)⟩

/-- In a file that follows the grammar the children of every node stand within it, one behind the
other. -/
theorem root_ordered {text : List Char} (hvalid : (parse text).hasErrors = false) :
    (parse text).root.All Node.Ordered := by
  obtain ⟨nodes, hnodes⟩ := nodes_of_parse hvalid
  obtain ⟨a, r, rfl, -, ⟨-, hlaid⟩, hrow, ha⟩ :=
    (ordering text).file (Reading.of_start text) hnodes
  unfold parse
  simp only [hnodes]
  refine Node.all_iff.2 ⟨(hrow.append hlaid.row).from_head, fun n hn => ?_⟩
  rcases List.mem_append.1 hn with hn | hn
  · exact ha n hn
  · obtain ⟨t, ht, rfl⟩ := List.mem_map.1 hn
    exact Node.ordered_ofToken (hlaid.stands t ht)

end Mend.Go
