import Mathlib.Data.List.Chain
import Mend.Go.View
import Mend.Proofs.Go.Lexing
import Mend.Proofs.Go.Reading

/-! Where the nodes of a Go tree stand: every one of them in the text, and those of comments just
where the text has a comment. -/
namespace Mend.Go

namespace Node

@[simp] lemma kind_mk (role? : Option Role) (kind : Kind) (span : Span) (children : List Node) :
    (mk role? kind span children).kind = kind := rfl

@[simp] lemma span_mk (role? : Option Role) (kind : Kind) (span : Span) (children : List Node) :
    (mk role? kind span children).span = span := rfl

@[simp] lemma children_mk (role? : Option Role) (kind : Kind) (span : Span)
    (children : List Node) : (mk role? kind span children).children = children := rfl

/-- A node or a node below it. -/
inductive Part : Node → Node → Prop
  | self (n : Node) : Part n n
  | child {n c m : Node} : c ∈ n.children → Part c m → Part n m

/-- What holds of a node and of everything below it. -/
def All (P : Node → Prop) (n : Node) : Prop := ∀ m, Part n m → P m

variable {P : Node → Prop} {n : Node}

theorem All.self (h : n.All P) : P n := h n (.self n)

theorem All.child (h : n.All P) {c : Node} (hc : c ∈ n.children) : c.All P :=
  fun m hm => h m (.child hc hm)

theorem all_iff : n.All P ↔ P n ∧ ∀ c ∈ n.children, c.All P := by
  refine ⟨fun h => ⟨h.self, fun c hc => h.child hc⟩, fun ⟨hn, hc⟩ m hm => ?_⟩
  cases hm with
  | self => exact hn
  | child hmem hm => exact hc _ hmem m hm

end Node

/-- Leaves, none of them a comment, that cover a text from one offset to another without a gap. -/
def Tiles (start stop : Nat) : List Node → Prop
  | [] => start = stop
  | n :: ns => n.children = [] ∧ n.kind ≠ .comment ∧ n.span.start = start ∧ start ≤ n.span.stop ∧
      Tiles n.span.stop stop ns

namespace Tiles

variable {a b c : Nat} {ms ns : List Node}

lemma leaf_cons {kind : Kind} {length : Nat} (hk : kind ≠ .comment)
    (h : Tiles (a + length) b ns) : Tiles a b (Node.leaf kind a length :: ns) :=
  ⟨rfl, hk, rfl, Nat.le_add_right _ _, h⟩

theorem append (hm : Tiles a b ms) (hn : Tiles b c ns) : Tiles a c (ms ++ ns) := by
  induction ms generalizing a with
  | nil => exact hm ▸ hn
  | cons m ms ih => exact ⟨hm.1, hm.2.1, hm.2.2.1, hm.2.2.2.1, ih hm.2.2.2.2⟩

theorem start_le_stop (h : Tiles a b ns) : a ≤ b := by
  induction ns generalizing a with
  | nil => exact Nat.le_of_eq h
  | cons n ns ih => exact Nat.le_trans h.2.2.2.1 (ih h.2.2.2.2)

end Tiles

namespace Node

lemma length_escapeDigits_le (c : Char) (rest : List Char) :
    (escapeDigits c rest).length ≤ rest.length := by
  have htake (p : Char → Bool) (k : Nat) : ((rest.take k).takeWhile p).length ≤ rest.length :=
    ((List.takeWhile_sublist p).trans (List.take_sublist k rest)).length_le
  unfold escapeDigits
  simp only
  split
  · exact (List.takeWhile_sublist _).length_le
  · split
    · exact htake _ 4
    · split
      · exact htake _ 8
      · split
        · exact htake _ 2
        · exact Nat.zero_le _

/-- A string's next piece is a part of it that is not empty. -/
lemma stringPieces_succ {cs : List Char} (h : cs ≠ []) : ∃ kind length, kind ≠ .comment ∧
    0 < length ∧ length ≤ cs.length ∧ ∀ fuel p, stringPieces (fuel + 1) cs p =
      leaf kind p length :: stringPieces fuel (cs.drop length) (p + length) := by
  obtain ⟨c, rest, rfl⟩ := List.exists_cons_of_ne_nil h
  by_cases hescape : c = '\\' ∧ rest ≠ []
  · obtain ⟨rfl, hrest⟩ := hescape
    obtain ⟨d, rest, rfl⟩ := List.exists_cons_of_ne_nil hrest
    have hle := length_escapeDigits_le d rest
    exact ⟨.escapeSequence, (escapeDigits d rest).length + 2, by simp, by omega, by simp; omega,
      fun fuel p => by rw [stringPieces]⟩
  · have hle : ((c :: rest).takeWhile (· ≠ '\\')).length ≤ (c :: rest).length :=
      (List.takeWhile_sublist _).length_le
    have hlen : (c :: rest).length = rest.length + 1 := rfl
    refine ⟨.interpretedStringLiteralContent, max 1 ((c :: rest).takeWhile (· ≠ '\\')).length,
      by simp, by omega, by omega, fun fuel p => ?_⟩
    rw [stringPieces]
    · simp
    · intro d tail hcons
      obtain ⟨rfl, rfl⟩ := List.cons.inj hcons
      exact hescape ⟨rfl, by simp⟩

/-- The pieces of a string cover it. -/
lemma tiles_stringPieces {fuel p : Nat} {cs : List Char} (h : cs.length ≤ fuel) :
    Tiles p (p + cs.length) (stringPieces fuel cs p) := by
  induction fuel generalizing cs p with
  | zero =>
    obtain rfl : cs = [] := by simpa using h
    rfl
  | succ fuel ih =>
    by_cases hcs : cs = []
    · subst hcs
      rfl
    · obtain ⟨kind, length, hkind, hpos, hle, heq⟩ := stringPieces_succ hcs
      have hrest : Tiles (p + length) (p + length + (cs.drop length).length)
          (stringPieces fuel (cs.drop length) (p + length)) := ih (by simp; omega)
      rw [List.length_drop, show p + length + (cs.length - length) = p + cs.length by omega]
        at hrest
      rw [heq]
      exact .leaf_cons hkind hrest

lemma length_between_quotes (cs : List Char) :
    ((cs.drop 1).take (cs.length - 2)).length = cs.length - 2 := by
  simp only [List.length_take, List.length_drop]
  omega

/-- A string's quotes and what stands between them cover it. -/
theorem tiles_ofString {t : Token} (h : 2 ≤ t.chars.length) :
    Tiles t.start t.stop (ofString t).children := by
  have hinner := length_between_quotes t.chars
  have hstop : t.start + 1 + (t.chars.length - 2) = t.stop - 1 := by
    unfold Token.stop
    omega
  have hquote : Tiles (t.stop - 1) t.stop [leaf (.fixed (t.chars.take 1)) (t.stop - 1) 1] :=
    .leaf_cons (by simp) (by simp only [Tiles, Token.stop]; omega)
  unfold ofString
  split
  · refine .leaf_cons (by simp) (.leaf_cons (by simp) ?_)
    rwa [hinner, hstop]
  · refine .leaf_cons (by simp) (.append ?_ hquote)
    have hpieces (cs : List Char) := tiles_stringPieces (p := t.start + 1) (Nat.le_refl cs.length)
    simpa only [hinner, hstop] using hpieces ((t.chars.drop 1).take (t.chars.length - 2))

/-- A node stands in its text if it addresses a part of it and, where it is a comment, what the
text has as a comment. -/
structure Stands (text : List Char) (n : Node) : Prop where
  within : n.span.Within text.length
  comment : n.kind = .comment →
    ∃ t ∈ tokenize text, t.kind = .comment ∧ n.span = ⟨t.start, t.stop⟩

variable {text : List Char}

lemma stands_of_tiles {a b : Nat} {ns : List Node} (h : Tiles a b ns) (hb : b ≤ text.length) :
    ∀ n ∈ ns, n.All (Stands text) := by
  induction ns generalizing a with
  | nil => simp
  | cons m ns ih =>
    obtain ⟨hchildren, hkind, hstart, hstop, hns⟩ := h
    intro n hn
    rcases List.mem_cons.1 hn with rfl | hn
    · refine all_iff.2 ⟨⟨⟨hstart ▸ hstop, ?_⟩, fun hc => absurd hc hkind⟩, by simp [hchildren]⟩
      exact Nat.le_trans hns.start_le_stop hb
    · exact ih hns n hn

lemma stands_leaf {kind : Kind} {start length : Nat} (hk : kind ≠ .comment)
    (h : start + length ≤ text.length) : (leaf kind start length).All (Stands text) := by
  have htiles : Tiles start (start + length) [leaf kind start length] := .leaf_cons hk rfl
  exact stands_of_tiles htiles h _ (List.mem_singleton.2 rfl)

@[simp] lemma kind_leaf (kind : Kind) (start length : Nat) : (leaf kind start length).kind = kind :=
  rfl

@[simp] lemma span_leaf (kind : Kind) (start length : Nat) :
    (leaf kind start length).span = ⟨start, start + length⟩ := rfl

lemma kind_ofString (t : Token) : (ofString t).kind ≠ .comment := by
  unfold ofString
  split <;> simp [kind]

@[simp] lemma span_ofString (t : Token) : (ofString t).span = ⟨t.start, t.stop⟩ := by
  unfold ofString
  split <;> rfl

@[simp] lemma span_ofToken (t : Token) : (ofToken t).span = ⟨t.start, t.stop⟩ := by
  unfold ofToken
  split <;> simp [Token.stop]

lemma kind_ofToken {t : Token} : (ofToken t).kind = .comment ↔ t.kind = .comment := by
  unfold ofToken
  split <;> simp_all [kind_ofString]

/-- The node of a token is a leaf, or it is a string. -/
lemma ofToken_cases (t : Token) : (ofToken t).children = [] ∨
    (t.kind = .quotedString ∨ t.kind = .rawString) ∧ ofToken t = ofString t := by
  unfold ofToken
  split <;> simp_all [leaf, children]

theorem stands_ofToken {t : Token} (h : t.Stands text)
    (hmem : t.kind = .comment → t ∈ tokenize text) : (ofToken t).All (Stands text) := by
  have hself : Stands text (ofToken t) := by
    refine ⟨?_, fun hc => ?_⟩
    · simpa [Span.Within, Token.stop] using h.stop_le
    · have hkind := kind_ofToken.1 hc
      exact ⟨t, hmem hkind, hkind, span_ofToken t⟩
  refine all_iff.2 ⟨hself, ?_⟩
  rcases ofToken_cases t with hc | ⟨hquotes, hstring⟩
  · simp [hc]
  · rw [hstring]
    exact stands_of_tiles (tiles_ofString (h.quotes hquotes)) h.stop_le

@[simp] lemma span_ofRead (kind? : Option Kind) (t : Token) :
    (ofRead kind? t).span = ⟨t.start, t.stop⟩ := by
  cases kind? <;> simp [ofRead, Token.stop]

lemma stands_ofRead {kind? : Option Kind} {t : Token} (h : t.Stands text)
    (ht : t.kind ≠ .comment) (hk : kind? ≠ some .comment) :
    (ofRead kind? t).All (Stands text) := by
  cases kind? with
  | none => exact stands_ofToken h fun hc => absurd hc ht
  | some kind => exact stands_leaf (by simpa using hk) h.stop_le

lemma withRole_eq (role : Role) (n : Node) :
    ∃ role?, n.withRole role = mk role? n.kind n.span n.children := by
  obtain ⟨role?, kind, span, children⟩ := n
  cases role? with
  | none =>
    by_cases hk : kind = .comment <;>
      simp [withRole, hk, Node.kind, Node.span, Node.children]
  | some other => exact ⟨some other, rfl⟩

lemma stands_withRole {role : Role} {n : Node} (h : n.All (Stands text)) :
    (n.withRole role).All (Stands text) := by
  obtain ⟨role?, hrole⟩ := withRole_eq role n
  have hn := all_iff.1 h
  exact hrole ▸ all_iff.2 ⟨⟨hn.1.within, hn.1.comment⟩, hn.2⟩

@[simp] lemma span_withRole (role : Role) (n : Node) : (n.withRole role).span = n.span := by
  obtain ⟨role?, hrole⟩ := withRole_eq role n
  rw [hrole]
  rfl

end Node

/-- What a pattern gives: comments, and behind them one node around everything else. -/
lemma enclose_cases (kind : Kind) (stop : Nat) (nodes : List Node) :
    (enclose kind stop nodes = nodes ∧ ∀ n ∈ nodes, n.kind = .comment) ∨
      ∃ comments first rest, nodes = comments ++ first :: rest ∧
        (∀ n ∈ comments, n.kind = .comment) ∧ enclose kind stop nodes =
          comments ++ [.mk none kind ⟨first.span.start, stop⟩ (first :: rest)] := by
  have hcomments : ∀ n ∈ nodes.takeWhile Node.isComment, n.kind = .comment := fun n hn => by
    simpa [Node.isComment] using List.all_eq_true.1 List.all_takeWhile n hn
  have hsplit : nodes.takeWhile Node.isComment ++
      nodes.drop (nodes.takeWhile Node.isComment).length = nodes := by
    obtain ⟨rest, hrest⟩ := List.takeWhile_prefix (l := nodes) Node.isComment
    generalize nodes.takeWhile Node.isComment = comments at hrest ⊢
    rw [← hrest, List.drop_left]
  unfold enclose
  simp only
  split
  · rename_i hnil
    rw [hnil, List.append_nil] at hsplit
    exact .inl ⟨hsplit, hsplit ▸ hcomments⟩
  · rename_i first rest hcons
    rw [hcons] at hsplit
    exact .inr ⟨_, first, rest, hsplit.symm, hcomments, rfl⟩

/-- What a token does to a reading of tokens that are laid out in a text. -/
lemma standing_token? {text : List Char} {r s : Reading} {t : Terminal} {nodes : List Node}
    {read : Token} (hat : Laid text r.last r.rest ∧ ∀ t ∈ r.rest, t ∈ tokenize text)
    (h : r.token? t = some (nodes, read, s)) :
    (Laid text s.last s.rest ∧ ∀ t ∈ s.rest, t ∈ tokenize text) ∧
      (read.Stands text ∧ read.kind ≠ .comment) ∧ (r.last ≤ s.last ∧ s.last = read.stop) ∧
      ∀ n ∈ nodes, n.All (Node.Stands text) ∧ n.span.stop ≤ s.last := by
  obtain ⟨comments, hrest, _, hkind, _, rfl, hlast⟩ := Reading.eq_of_token? h
  obtain ⟨hlaid, hmem⟩ := hat
  rw [hrest] at hlaid hmem
  obtain ⟨hall, hstart, hread, hs⟩ := hlaid.split
  have hstop : read.start ≤ read.stop := Nat.le_add_right _ _
  refine ⟨⟨hlast ▸ hs, fun t ht => hmem t (by simp [ht])⟩, ⟨hread, hkind⟩, ⟨by omega, hlast⟩, ?_⟩
  intro n hn
  obtain ⟨c, hc, rfl⟩ := List.mem_map.1 hn
  refine ⟨Node.stands_ofToken (hall c hc).1 fun _ => hmem c (by simp [hc]), ?_⟩
  rw [Node.span_ofToken, hlast]
  exact Nat.le_trans (hall c hc).2 hstop

/-- Every node of a tree stands in the text, and what is read ends where the reading has got to. -/
def standing (text : List Char) : Pattern.Invariant where
  At r := Laid text r.last r.rest ∧ ∀ t ∈ r.rest, t ∈ tokenize text
  Over r a s := r.last ≤ s.last ∧ ∀ n ∈ a, n.All (Node.Stands text) ∧ n.span.stop ≤ s.last
  nil _ := ⟨Nat.le_refl _, by simp⟩
  append := by
    rintro r a s b t ⟨hrs, ha⟩ ⟨hst, hb⟩
    refine ⟨Nat.le_trans hrs hst, fun n hn => ?_⟩
    rcases List.mem_append.1 hn with hn | hn
    · exact ⟨(ha n hn).1, Nat.le_trans (ha n hn).2 hst⟩
    · exact hb n hn
  enclose := by
    rintro r a s kind hkind ⟨hlaid, _⟩ ⟨hrs, ha⟩
    refine ⟨hrs, ?_⟩
    rcases enclose_cases kind s.last a with ⟨h, _⟩ | ⟨comments, first, rest, rfl, _, h⟩
    · rwa [h]
    · rw [h]
      have hfirst := ha first (by simp)
      have hstart := hfirst.1.self.within
      have hs : s.last ≤ text.length := hlaid.le
      refine fun n hn => ?_
      rcases List.mem_append.1 hn with hn | hn
      · exact ha n (by simp [hn])
      · obtain rfl := List.mem_singleton.1 hn
        refine ⟨Node.all_iff.2 ⟨⟨⟨Nat.le_trans hstart.1 hfirst.2, hs⟩, fun hc => absurd hc hkind⟩,
          fun c hc => (ha c ?_).1⟩, Nat.le_refl _⟩
        exact List.mem_append_right _ hc
  labelled := by
    rintro role? r a s ⟨hrs, ha⟩
    refine ⟨hrs, ?_⟩
    cases role? with
    | none => exact ha
    | some role =>
      intro n hn
      obtain ⟨m, hm, rfl⟩ := List.mem_map.1 hn
      exact ⟨Node.stands_withRole (ha m hm).1, by simpa using (ha m hm).2⟩
  token := by
    rintro r t kind? nodes read s ht hkind hat hr
    obtain ⟨hat', ⟨hread, hcomment⟩, hstart, hnodes⟩ := standing_token? hat hr
    refine ⟨hat', hstart.1, fun n hn => ?_⟩
    rcases List.mem_append.1 hn with hn | hn
    · exact hnodes n hn
    · obtain rfl := List.mem_singleton.1 hn
      refine ⟨Node.stands_ofRead hread hcomment hkind, ?_⟩
      rw [Node.span_ofRead]
      exact Nat.le_of_eq hstart.2.symm
  hidden := by
    rintro r t nodes read s _ hat hr
    obtain ⟨hat', _, hstart, hnodes⟩ := standing_token? hat hr
    exact ⟨hat', hstart.1, hnodes⟩

/-- What an invariant says of a whole file: of what is read, with nothing but comments left. -/
theorem Pattern.Invariant.file (I : Pattern.Invariant) {tokens : List Token} {nodes : List Node}
    (hat : I.At ⟨tokens, 0⟩) (h : fileNodes? tokens = some nodes) :
    ∃ a r, nodes = a ++ r.rest.map Node.ofToken ∧ (∀ t ∈ r.rest, t.kind = .comment) ∧
      I.At r ∧ I.Over ⟨tokens, 0⟩ a r := by
  obtain ⟨a, r, hrun, hrest, rfl⟩ := fileNodes?_eq_some_iff.1 h
  exact ⟨a, r, rfl, hrest, I.run Grammar.rule_wellFormed (by decide) hat hrun⟩

theorem nodes_stand {text : List Char} {nodes : List Node}
    (h : fileNodes? (tokenize text) = some nodes) : ∀ n ∈ nodes, n.All (Node.Stands text) := by
  obtain ⟨a, r, rfl, -, ⟨hlaid, hmem⟩, -, ha⟩ :=
    (standing text).file ⟨laid_tokenize text, fun _ ht => ht⟩ h
  intro n hn
  rcases List.mem_append.1 hn with hn | hn
  · exact (ha n hn).1
  · obtain ⟨t, ht, rfl⟩ := List.mem_map.1 hn
    exact Node.stands_ofToken (hlaid.stands t ht) fun _ => hmem t ht

/-- Every node of the tree of a text stands in the text. -/
theorem root_stands (text : List Char) : (parse text).root.All (Node.Stands text) := by
  have hroot (nodes : List Node) (h : ∀ n ∈ nodes, n.All (Node.Stands text)) :
      (Node.mk none .sourceFile
        ⟨(nodes.head?.map (·.span.start)).getD text.length, text.length⟩ nodes).All
        (Node.Stands text) := by
    refine Node.all_iff.2 ⟨⟨⟨?_, Nat.le_refl _⟩, by simp [Node.kind]⟩, h⟩
    cases nodes with
    | nil => exact Nat.le_refl _
    | cons n ns =>
      have hn := (h n (by simp)).self.within
      exact Nat.le_trans hn.1 hn.2
  unfold parse
  simp only
  split
  · rename_i nodes hnodes
    exact hroot nodes (nodes_stand hnodes)
  · refine hroot _ fun n hn => ?_
    obtain ⟨t, ht, rfl⟩ := List.mem_map.1 hn
    have hmem := (List.mem_filter.1 ht).1
    exact Node.stands_ofToken ((laid_tokenize text).stands t hmem) fun _ => hmem

/-- What holds at the root and passes on to children and to parents holds wherever fixes get. -/
theorem File.reachable_induction {f : File} {P : Cursor → Prop} (hroot : P f.rootCursor)
    (hchild : ∀ {c n}, P c → n ∈ c.node.children → P (c.child n))
    (hparent : ∀ {n m above}, P ⟨n, m :: above⟩ → P ⟨m, above⟩) {c : Cursor}
    (h : f.tree.Reachable c) : P c := by
  have hdescend (offset fuel : Nat) {c : Cursor} (hc : P c) : P (Cursor.descend offset fuel c) := by
    induction fuel generalizing c with
    | zero => exact hc
    | succ fuel ih =>
      unfold Cursor.descend
      split
      · rename_i n hn
        exact ih (hchild hc (List.mem_of_find?_eq_some hn))
      · exact hc
  have hancestors {n : Node} {around : List Node} (hc : P ⟨n, around⟩) :
      ∀ d ∈ Cursor.ancestorsOf around, P d := by
    induction around generalizing n with
    | nil => simp [Cursor.ancestorsOf]
    | cons m above ih =>
      intro d hd
      rcases List.mem_cons.1 hd with rfl | hd
      · exact hparent hc
      · exact ih (hparent hc) d hd
  induction h with
  | leaf h =>
    simp only [File.tree, File.leafAt?] at h
    split at h
    · exact Option.some.inj h ▸ hdescend _ _ hroot
    · cases h
  | ancestor _ hm ih => exact hancestors ih _ hm
  | child _ hm ih =>
    obtain ⟨n, hn, rfl⟩ := List.mem_map.1 hm
    exact hchild ih hn
  | name _ hm ih =>
    obtain ⟨n, hn, rfl⟩ := Option.map_eq_some_iff.1 hm
    split at hn
    · exact hchild ih (List.mem_of_find?_eq_some hn)
    · exact hchild ih (List.mem_of_find?_eq_some hn)
  | condition _ hm ih =>
    obtain ⟨n, hn, rfl⟩ := Option.map_eq_some_iff.1 hm
    exact hchild ih (List.mem_of_find?_eq_some hn)

/-- What holds of all nodes of a tree holds of the node under a cursor and of those around it. -/
theorem File.all_of_reachable {f : File} {P : Node → Prop} (hroot : f.root.All P) {c : Cursor}
    (h : f.tree.Reachable c) : ∀ n ∈ c.node :: c.around, n.All P := by
  refine File.reachable_induction (P := fun c => ∀ n ∈ c.node :: c.around, n.All P) ?_ ?_ ?_ h
  · intro n hn
    obtain rfl := List.mem_singleton.1 hn
    exact hroot
  · intro c n hc hn m hm
    rcases List.mem_cons.1 hm with rfl | hm
    · exact (hc c.node (by simp)).child hn
    · exact hc m hm
  · exact fun hc m hm => hc m (List.mem_cons_of_mem _ hm)

/-- Every node is a child of the next one. -/
def Cursor.Linked (c : Cursor) : Prop :=
  (c.node :: c.around).IsChain fun n parent => n ∈ parent.children

theorem Cursor.linked_of_reachable {f : File} {c : Cursor} (h : f.tree.Reachable c) : c.Linked := by
  refine File.reachable_induction (P := Cursor.Linked) ?_ ?_ ?_ h
  · exact .singleton _
  · exact fun hc hn => .cons_cons hn hc
  · intro n m above hc
    cases hc with
    | cons_cons _ hc => exact hc

/-- The last of the nodes around a cursor is the root. -/
theorem Cursor.getLast?_of_reachable {f : File} {c : Cursor} (h : f.tree.Reachable c) :
    (c.node :: c.around).getLast? = some f.root := by
  refine File.reachable_induction (P := fun c => (c.node :: c.around).getLast? = some f.root)
    rfl ?_ ?_ h
  · intro c n hc _
    simpa [Cursor.child] using hc
  · intro n m above hc
    simpa using hc

lemma kind_root (text : List Char) : (parse text).root.kind = .sourceFile := by
  unfold parse
  simp only
  split <;> rfl

/-- What is not the file as a whole stands in another node. -/
theorem Cursor.exists_parent {text : List Char} {c : Cursor} (h : (parse text).tree.Reachable c)
    (hkind : c.node.kind ≠ .sourceFile) :
    ∃ parent above, c.around = parent :: above ∧ c.node ∈ parent.children ∧
      (parse text).tree.Reachable ⟨parent, above⟩ := by
  have hroot := getLast?_of_reachable h
  have hlinked := linked_of_reachable h
  obtain ⟨node, around⟩ := c
  cases around with
  | nil =>
    obtain rfl := Option.some.inj hroot
    exact absurd (kind_root text) hkind
  | cons parent above =>
    cases hlinked with
    | cons_cons hmem _ => exact ⟨parent, above, rfl, hmem, .ancestor h List.mem_cons_self⟩

theorem stands_of_reachable {text : List Char} {c : Cursor} (h : (parse text).tree.Reachable c) :
    ∀ n ∈ c.node :: c.around, n.All (Node.Stands text) :=
  File.all_of_reachable (root_stands text) h

/-- The Go tree of a text fits the text. -/
theorem tree_within (text : List Char) : (parse text).tree.Within text.length :=
  fun c hc => (stands_of_reachable hc c.node (by simp)).self.within

end Mend.Go
