import Mend.Proofs.Go.Places
import Mend.Proofs.Go.Spans
import Mend.Text.Document

/-! The tokens at the leaves of a Go tree. They spell the significant tokens of the text; where the
text follows the grammar, its significant tokens say which leaves there are, so that white space
and comments have no part in it. -/
namespace Mend.Go

mutual

/-- The nodes without children, from left to right. -/
def Node.leaves : Node → List Node
  | .mk role? kind span [] => [.mk role? kind span []]
  | .mk _ _ _ (c :: cs) => c.leaves ++ leavesOf cs

def leavesOf : List Node → List Node
  | [] => []
  | n :: ns => n.leaves ++ leavesOf ns

end

/-- The leaves of a forest as the text spells them, comments left out. -/
def tokensAt (text : List Char) (nodes : List Node) : List (Kind × List Char) :=
  ((leavesOf nodes).filter fun n => n.kind ≠ .comment).map fun n =>
    (n.kind, Document.slice ⟨text⟩ n.span)

/-- The tokens at the leaves of a file's tree, comments left out; ends of lines leave no leaf. -/
def File.leafTokens (f : File) : List (Kind × List Char) := tokensAt f.chars f.root.children

variable {text text' : List Char}

lemma leavesOf_append (ms ns : List Node) : leavesOf (ms ++ ns) = leavesOf ms ++ leavesOf ns := by
  induction ms with
  | nil => rfl
  | cons m ms ih => simp [leavesOf, ih]

@[simp] lemma tokensAt_nil (text : List Char) : tokensAt text [] = [] := rfl

@[simp] lemma tokensAt_append (text : List Char) (ms ns : List Node) :
    tokensAt text (ms ++ ns) = tokensAt text ms ++ tokensAt text ns := by
  simp [tokensAt, leavesOf_append]

lemma tokensAt_cons (text : List Char) (n : Node) (ns : List Node) :
    tokensAt text (n :: ns) = tokensAt text [n] ++ tokensAt text ns :=
  tokensAt_append text [n] ns

/-- A node with children has their leaves. -/
lemma tokensAt_parent (role? : Option Role) (kind : Kind) (span : Span) {ns : List Node}
    (h : ns ≠ []) : tokensAt text [.mk role? kind span ns] = tokensAt text ns := by
  obtain ⟨n, ns, rfl⟩ := List.exists_cons_of_ne_nil h
  simp [tokensAt, leavesOf, Node.leaves]

lemma tokensAt_childless (role? : Option Role) (kind : Kind) (span : Span) :
    tokensAt text [.mk role? kind span []] =
      if kind = .comment then [] else [(kind, Document.slice ⟨text⟩ span)] := by
  by_cases h : kind = .comment <;> simp [tokensAt, leavesOf, Node.leaves, h]

lemma tokensAt_leaf {kind : Kind} (h : kind ≠ .comment) (start length : Nat) :
    tokensAt text [.leaf kind start length] =
      [(kind, Document.slice ⟨text⟩ ⟨start, start + length⟩)] := by
  rw [Node.leaf, tokensAt_childless, if_neg h]

lemma tokensAt_enclose (kind : Kind) (stop : Nat) (nodes : List Node) :
    tokensAt text (enclose kind stop nodes) = tokensAt text nodes := by
  rcases enclose_cases kind stop nodes with ⟨h, _⟩ | ⟨comments, first, rest, rfl, _, h⟩
  · rw [h]
  · rw [h, tokensAt_append, tokensAt_append, tokensAt_parent _ _ _ (by simp)]

lemma tokensAt_labelled (role? : Option Role) (nodes : List Node) :
    tokensAt text (labelled role? nodes) = tokensAt text nodes := by
  cases role? with
  | none => rfl
  | some role =>
    induction nodes with
    | nil => rfl
    | cons n ns ih =>
      obtain ⟨role?, hrole⟩ := Node.withRole_eq role n
      rw [labelled, List.map_cons, tokensAt_cons, tokensAt_cons text n, hrole]
      congr 1
      obtain ⟨role?, kind, span, children⟩ := n
      cases children with
      | nil => simp only [Node.kind_mk, Node.span_mk, Node.children_mk, tokensAt_childless]
      | cons c children => simp only [Node.children_mk, tokensAt_parent, ne_eq, reduceCtorEq,
          not_false_eq_true]

/-- A part of what stands at an offset. -/
lemma slice_of_isPrefix {cs : List Char} {o k : Nat} (h : cs <+: text.drop o)
    (hk : k ≤ cs.length) : Document.slice ⟨text⟩ ⟨o, o + k⟩ = cs.take k := by
  obtain ⟨rest, hrest⟩ := h
  simp only [Document.slice, List.drop_take, Nat.add_sub_cancel_left, ← hrest]
  exact List.take_append_of_le_length hk

lemma isPrefix_drop_add {cs : List Char} {o k : Nat} (h : cs <+: text.drop o)
    (hk : k ≤ cs.length) : cs.drop k <+: text.drop (o + k) := by
  obtain ⟨rest, hrest⟩ := h
  rw [← List.drop_drop, ← hrest, List.drop_append_of_le_length hk]
  exact List.prefix_append _ rest

lemma tokensAt_comments {cs : List Token} (h : ∀ c ∈ cs, c.kind = .comment) :
    tokensAt text (cs.map Node.ofToken) = [] := by
  induction cs with
  | nil => rfl
  | cons c cs ih =>
    have hc : c.kind = .comment := h c (by simp)
    have hleaf : Node.ofToken c = .leaf .comment c.start c.chars.length := by
      simp [Node.ofToken, hc]
    rw [List.map_cons, tokensAt_cons, ih fun d hd => h d (by simp [hd]), hleaf]
    rfl

/-- The kinds and lengths of nodes. -/
def shape (nodes : List Node) : List (Kind × Nat) :=
  nodes.map fun n => (n.kind, n.span.stop - n.span.start)

/-- Characters cut into pieces of given kinds and lengths. -/
def cut (cs : List Char) : List (Kind × Nat) → List (Kind × List Char)
  | [] => []
  | (kind, length) :: rest => (kind, cs.take length) :: cut (cs.drop length) rest

/-- Leaves side by side cut up the characters that they cover. -/
theorem tokensAt_of_tiles {a b : Nat} {ns : List Node} (h : Tiles a b ns) {cs : List Char}
    (hcs : cs <+: text.drop a) (hlen : b - a ≤ cs.length) :
    tokensAt text ns = cut cs (shape ns) := by
  induction ns generalizing a cs with
  | nil => rfl
  | cons n ns ih =>
    obtain ⟨hchildren, hkind, rfl, hstop, hns⟩ := h
    obtain ⟨role?, kind, ⟨start, stop⟩, children⟩ := n
    simp only [Node.children_mk, Node.kind_mk, Node.span_mk] at *
    subst hchildren
    have hle := hns.start_le_stop
    obtain ⟨k, rfl⟩ := Nat.exists_eq_add_of_le hstop
    have hk : k ≤ cs.length := by omega
    rw [tokensAt_cons, tokensAt_childless, if_neg hkind, slice_of_isPrefix hcs hk,
      ih hns (isPrefix_drop_add hcs hk) (by simp; omega)]
    simp [shape, cut]

lemma shape_stringPieces (fuel : Nat) (cs : List Char) (p q : Nat) :
    shape (Node.stringPieces fuel cs p) = shape (Node.stringPieces fuel cs q) := by
  induction fuel generalizing cs p q with
  | zero => rfl
  | succ fuel ih =>
    by_cases hcs : cs = []
    · subst hcs
      rfl
    · obtain ⟨kind, length, _, _, _, heq⟩ := Node.stringPieces_succ hcs
      have hrest := ih (cs.drop length) (p + length) (q + length)
      simp only [shape] at hrest
      simp [heq, shape, hrest]

variable {t t' : Token}

lemma shape_ofString (hmark : t.mark = t'.mark) :
    shape (Node.ofString t).children = shape (Node.ofString t').children := by
  obtain ⟨kind, start, chars⟩ := t
  obtain ⟨kind', start', chars'⟩ := t'
  obtain ⟨rfl, rfl⟩ : kind = kind' ∧ chars = chars' := by simpa [Token.mark] using hmark
  unfold Node.ofString
  by_cases hk : kind = .rawString
  · simp [hk, shape]
  · have hpieces := shape_stringPieces ((chars.drop 1).take (chars.length - 2)).length
      ((chars.drop 1).take (chars.length - 2)) (start + 1) (start' + 1)
    simp only [shape] at hpieces
    simpa [hk, shape] using hpieces

lemma tokensAt_children {n : Node} (h : n.children ≠ []) :
    tokensAt text [n] = tokensAt text n.children := by
  obtain ⟨role?, kind, span, children⟩ := n
  exact tokensAt_parent role? kind span h

lemma Tiles.ne_nil {a b : Nat} {ns : List Node} (h : Tiles a b ns) (hab : a < b) : ns ≠ [] := by
  rintro rfl
  have : a = b := h
  omega

lemma tokensAt_ofString (h : t.Stands text) (hquotes : 2 ≤ t.chars.length) :
    tokensAt text [Node.ofString t] = cut t.chars (shape (Node.ofString t).children) := by
  have htiles := Node.tiles_ofString hquotes
  have hstop : t.stop = t.start + t.chars.length := rfl
  rw [tokensAt_children (htiles.ne_nil (by omega))]
  exact tokensAt_of_tiles htiles h.isPrefix (by omega)

/-- What stands at a token's place is its spelling. -/
lemma slice_token (h : t.Stands text) :
    Document.slice ⟨text⟩ ⟨t.start, t.start + t.chars.length⟩ = t.chars := by
  rw [slice_of_isPrefix h.isPrefix (Nat.le_refl _), List.take_length]

/-- The leaves of a token's node depend on the token's kind and spelling only. -/
theorem tokensAt_ofToken (h : t.Stands text) (h' : t'.Stands text') (hmark : t.mark = t'.mark) :
    tokensAt text [Node.ofToken t] = tokensAt text' [Node.ofToken t'] := by
  have hshape := shape_ofString hmark
  have hstring := tokensAt_ofString h
  have hstring' := tokensAt_ofString h'
  have hquotes := h.quotes
  have hquotes' := h'.quotes
  have hslice := slice_token h
  have hslice' := slice_token h'
  obtain ⟨kind, start, chars⟩ := t
  obtain ⟨kind', start', chars'⟩ := t'
  obtain ⟨rfl, rfl⟩ : kind = kind' ∧ chars = chars' := by simpa [Token.mark] using hmark
  simp only at hshape hstring hstring' hquotes hquotes' hslice hslice'
  cases kind
  case quotedString | rawString =>
    simp only [Node.ofToken]
    rw [hstring (hquotes (by simp)), hstring' (hquotes' (by simp)), hshape]
  case comment => simp [Node.ofToken, Node.leaf, tokensAt_childless]
  all_goals simp [Node.ofToken, tokensAt_leaf, hslice, hslice']

lemma tokensAt_ofRead {kind? : Option Kind} (h : t.Stands text) (h' : t'.Stands text')
    (hmark : t.mark = t'.mark) (hkind : kind? ≠ some .comment) :
    tokensAt text [Node.ofRead kind? t] = tokensAt text' [Node.ofRead kind? t'] := by
  cases kind? with
  | none => exact tokensAt_ofToken h h' hmark
  | some kind =>
    have hchars : t.chars = t'.chars := congrArg Prod.snd hmark
    simp only [Node.ofRead]
    rw [tokensAt_leaf (by simpa using hkind), tokensAt_leaf (by simpa using hkind), slice_token h,
      slice_token h', hchars]

lemma significant_split {comments rest : List Token} {read : Token}
    (h : ∀ c ∈ comments, c.kind = .comment) (hr : read.kind ≠ .comment) :
    significant (comments ++ read :: rest) = read.mark :: significant rest := by
  rw [significant_append, significant_of_comments h, significant_cons, if_neg hr, List.nil_append]

lemma accepts_of_mark {x : Terminal} (h : t.mark = t'.mark) : x.accepts t = x.accepts t' := by
  simp only [Token.mark, Prod.mk.injEq] at h
  cases x <;> simp [Terminal.accepts, h.1, h.2]

/-- The tokens left to two readings are the same, comments aside, and each stands in its text. -/
def Alike (text text' : List Char) (r r' : Reading) : Prop :=
  significant r.rest = significant r'.rest ∧
    (∀ t ∈ r.rest, t.Stands text) ∧ ∀ t ∈ r'.rest, t.Stands text'

/-- Two readings that are alike read the same next token, or neither reads one. -/
theorem Alike.token? {r r' : Reading} (h : Alike text text' r r') (x : Terminal) :
    Option.Rel (fun y z => Alike text text' y.2.2 z.2.2 ∧ y.2.1.Stands text ∧ z.2.1.Stands text' ∧
      y.2.1.mark = z.2.1.mark ∧ tokensAt text y.1 = [] ∧ tokensAt text' z.1 = [])
      (r.token? x) (r'.token? x) := by
  obtain ⟨tokens, last⟩ := r
  obtain ⟨tokens', last'⟩ := r'
  obtain ⟨hsame, hs, hs'⟩ := h
  simp only at hsame hs hs'
  rcases comments_split tokens with hall | ⟨comments, read, rest, rfl, hc, hr⟩
  · rcases comments_split tokens' with hall' | ⟨comments', read', rest', rfl, hc', hr'⟩
    · rw [Reading.token?_of_comments hall, Reading.token?_of_comments hall']
      exact .none
    · rw [significant_of_comments hall, significant_split hc' hr'] at hsame
      cases hsame
  · rcases comments_split tokens' with hall' | ⟨comments', read', rest', rfl, hc', hr'⟩
    · rw [significant_of_comments hall', significant_split hc hr] at hsame
      cases hsame
    · rw [significant_split hc hr, significant_split hc' hr'] at hsame
      obtain ⟨hmark, hrest⟩ := List.cons.inj hsame
      rw [Reading.token?_of_split hc hr, Reading.token?_of_split hc' hr', accepts_of_mark hmark]
      split
      · refine .some ⟨⟨hrest, fun t ht => hs t (by simp [ht]), fun t ht => hs' t (by simp [ht])⟩,
          hs read (by simp), hs' read' (by simp), hmark, tokensAt_comments hc,
          tokensAt_comments hc'⟩
      · exact .none

/-- Readings that are alike read the same leaves. -/
def sameLeaves (text text' : List Char) : Pattern.Simulation where
  Aligned := Alike text text'
  Spanned _ _ a a' _ _ := tokensAt text a = tokensAt text' a'
  nil _ := rfl
  append ha hb := by rw [tokensAt_append, tokensAt_append, ha, hb]
  enclose _ _ ha := by rw [tokensAt_enclose, tokensAt_enclose, ha]
  labelled role? _ _ _ _ _ _ ha := by rw [tokensAt_labelled, tokensAt_labelled, ha]
  token {r r' x kind?} _ hkind h := by
    rcases Pattern.Simulation.rel_cases (h.token? x) with
      ⟨hr, hr'⟩ | ⟨y, z, hr, hr', halike, hy, hz, hmark, hc, hc'⟩
    · rw [hr, hr']
      exact .none
    · rw [hr, hr']
      refine .some ⟨halike, ?_⟩
      rw [tokensAt_append, tokensAt_append, hc, hc', tokensAt_ofRead hy hz hmark hkind]
  hidden {r r' x} _ h := by
    rcases Pattern.Simulation.rel_cases (h.token? x) with
      ⟨hr, hr'⟩ | ⟨y, z, hr, hr', halike, _, _, _, hc, hc'⟩
    · rw [hr, hr']
      exact .none
    · rw [hr, hr']
      exact .some ⟨halike, by rw [hc, hc']⟩

lemma depthBound_of_significant {ts us : List Token} (h : significant ts = significant us) :
    depthBound ts = depthBound us := by
  have hlen (xs : List Token) :
      (xs.filter (·.kind ≠ .comment)).length = (significant xs).length := by
    rw [significant, List.filter_map, List.length_map]
    rfl
  simp only [depthBound, hlen, h]

lemma all_comments_iff {ts : List Token} :
    ts.all (·.kind = .comment) = true ↔ significant ts = [] := by
  simp [significant, Token.mark]

lemma fileNodes?_of_alike {ts us : List Token} (h : Alike text text' ⟨ts, 0⟩ ⟨us, 0⟩) :
    Option.Rel (fun a b => tokensAt text a = tokensAt text' b) (fileNodes? ts) (fileNodes? us) := by
  have hrel := @Pattern.Simulation.run_related _ ⟨ts, 0⟩ ⟨us, 0⟩ [] [] (sameLeaves text text') _ _
    Grammar.rule_wellFormed (depthBound ts) (.symbol .sourceFile) (by decide) true h
  unfold fileNodes?
  rw [← depthBound_of_significant h.1]
  rcases Pattern.Simulation.rel_cases hrel with ⟨hr, hr'⟩ | ⟨⟨a, r⟩, ⟨b, r'⟩, hr, hr', halike, hab⟩
  · rw [hr, hr']
    exact .none
  · rw [hr, hr']
    have hall : r.rest.all (·.kind = .comment) = r'.rest.all (·.kind = .comment) := by
      rw [Bool.eq_iff_iff, all_comments_iff, all_comments_iff, halike.1]
    simp only [hall]
    split
    · rename_i hc'
      have hc : r.rest.all (·.kind = .comment) = true := hall.trans hc'
      refine .some ?_
      rw [tokensAt_append, tokensAt_append, tokensAt_comments (by simpa using hc),
        tokensAt_comments (by simpa using hc'), hab]
    · exact .none

lemma alike_of_significant (h : significant (tokenize text) = significant (tokenize text')) :
    Alike text text' ⟨tokenize text, 0⟩ ⟨tokenize text', 0⟩ :=
  ⟨h, (laid_tokenize text).stands, (laid_tokenize text').stands⟩

@[simp] lemma chars_parse (text : List Char) : (parse text).chars = text := by
  unfold parse
  simp only
  split <;> rfl

lemma parse_of_nodes {nodes : List Node} (h : fileNodes? (tokenize text) = some nodes) :
    (parse text).hasErrors = false ∧ (parse text).leafTokens = tokensAt text nodes := by
  simp [parse, h, File.leafTokens]

lemma nodes_of_parse (h : (parse text).hasErrors = false) :
    ∃ nodes, fileNodes? (tokenize text) = some nodes := by
  cases hn : fileNodes? (tokenize text) with
  | some nodes => exact ⟨nodes, rfl⟩
  | none => simp [parse, hn] at h

/-- Texts with the same significant tokens have the same leaves, if one of them is without errors;
then so is the other. -/
theorem leafTokens_of_significant
    (h : significant (tokenize text) = significant (tokenize text'))
    (hok : (parse text).hasErrors = false) :
    (parse text').hasErrors = false ∧ (parse text').leafTokens = (parse text).leafTokens := by
  obtain ⟨nodes, hnodes⟩ := nodes_of_parse hok
  have hrel := fileNodes?_of_alike (alike_of_significant h)
  rw [hnodes] at hrel
  generalize hnodes' : fileNodes? (tokenize text') = nodes'? at hrel
  cases hrel with
  | some hsame =>
    obtain ⟨hok', hleaves'⟩ := parse_of_nodes hnodes'
    exact ⟨hok', by rw [hleaves', (parse_of_nodes hnodes).2, hsame]⟩

/-- What is cut up by leaves side by side is as much as they cover. -/
lemma flatMap_cut_shape {a b : Nat} {ns : List Node} (h : Tiles a b ns) (cs : List Char) :
    (cut cs (shape ns)).flatMap Prod.snd = cs.take (b - a) := by
  induction ns generalizing a cs with
  | nil =>
    have : a = b := h
    simp [shape, cut, this]
  | cons n ns ih =>
    obtain ⟨_, _, rfl, hstop, hns⟩ := h
    have hrest := ih hns (cs.drop (n.span.stop - n.span.start))
    have hle := hns.start_le_stop
    have hsplit : b - n.span.start =
        (n.span.stop - n.span.start) + (b - n.span.stop) := by omega
    simp only [shape, List.map_cons, cut, List.flatMap_cons] at hrest ⊢
    rw [hrest, hsplit, List.take_add]

/-- A token's leaves spell the token. -/
lemma spelled_ofToken (h : t.Stands text) (hc : t.kind ≠ .comment) :
    (tokensAt text [Node.ofToken t]).flatMap Prod.snd = t.chars := by
  have hslice := slice_token h
  have hstring (hq : t.kind = .quotedString ∨ t.kind = .rawString) :
      (tokensAt text [Node.ofString t]).flatMap Prod.snd = t.chars := by
    have htiles := Node.tiles_ofString (h.quotes hq)
    rw [tokensAt_ofString h (h.quotes hq), flatMap_cut_shape htiles]
    exact List.take_of_length_le (by simp [Token.stop])
  obtain ⟨kind, start, chars⟩ := t
  simp only at hslice hc hstring ⊢
  cases kind
  case quotedString | rawString => exact hstring (by simp)
  case comment => exact absurd rfl hc
  all_goals simp [Node.ofToken, tokensAt_leaf, hslice]

lemma spelled_ofRead {kind? : Option Kind} (h : t.Stands text) (ht : t.kind ≠ .comment)
    (hkind : kind? ≠ some .comment) :
    (tokensAt text [Node.ofRead kind? t]).flatMap Prod.snd = t.chars := by
  cases kind? with
  | none => exact spelled_ofToken h ht
  | some kind =>
    simp only [Node.ofRead]
    rw [tokensAt_leaf (by simpa using hkind), slice_token h]
    simp

lemma spelled_cons (m : TokenKind × List Char) (ms : List (TokenKind × List Char)) :
    spelled (m :: ms) = if m.1 = .newline then spelled ms else m.2 ++ spelled ms := by
  by_cases h : m.1 = .newline <;> simp [spelled, h]

lemma not_unknown_of_comments {comments : List Token} {read : Token}
    (hc : ∀ c ∈ comments, c.kind = .comment) (hr : read.kind ≠ .unknown) :
    ∀ t ∈ comments ++ [read], t.kind ≠ .unknown := by
  intro t ht
  rcases List.mem_append.1 ht with ht | ht
  · simp [hc t ht]
  · rwa [List.mem_singleton.1 ht]

/-- What has been read is all tokens, and its leaves spell it. -/
def spelling (text : List Char) : Pattern.Invariant where
  At r := ∀ t ∈ r.rest, t.Stands text
  Over r a s := (∃ read, r.rest = read ++ s.rest ∧ ∀ t ∈ read, t.kind ≠ .unknown) ∧
    spelled (significant r.rest) =
      (tokensAt text a).flatMap Prod.snd ++ spelled (significant s.rest)
  nil _ := ⟨⟨[], rfl, by simp⟩, rfl⟩
  append := by
    rintro r a s b t ⟨⟨x, hx, hxu⟩, ha⟩ ⟨⟨y, hy, hyu⟩, hb⟩
    refine ⟨⟨x ++ y, by rw [hx, hy, List.append_assoc], fun t ht => ?_⟩, ?_⟩
    · rcases List.mem_append.1 ht with ht | ht
      · exact hxu t ht
      · exact hyu t ht
    · rw [ha, hb, tokensAt_append, List.flatMap_append, List.append_assoc]
  enclose _ _ h := by rwa [tokensAt_enclose]
  labelled role? _ _ _ h := by rwa [tokensAt_labelled]
  token := by
    intro r x kind? nodes read s hx hkind hat hr
    obtain ⟨comments, hrest, hc, hread, hacc, rfl, _⟩ := Reading.eq_of_token? hr
    obtain ⟨hunknown, hnewline⟩ := hx.kind hacc
    rw [hrest] at hat
    refine ⟨fun t ht => hat t (by simp [ht]), ⟨comments ++ [read], by simp [hrest], ?_⟩, ?_⟩
    · exact not_unknown_of_comments hc hunknown
    · rw [hrest, significant_split hc hread, spelled_cons,
        if_neg (show read.mark.1 ≠ .newline from hnewline), tokensAt_append, tokensAt_comments hc,
        List.nil_append, spelled_ofRead (hat read (by simp)) hread hkind]
      rfl
  hidden := by
    intro r x nodes read s hx hat hr
    obtain ⟨comments, hrest, hc, hread, hacc, rfl, _⟩ := Reading.eq_of_token? hr
    have hend := hx.kind hacc
    rw [hrest] at hat
    refine ⟨fun t ht => hat t (by simp [ht]), ⟨comments ++ [read], by simp [hrest], ?_⟩, ?_⟩
    · exact not_unknown_of_comments hc (by rcases hend with h | h <;> simp [h])
    · rw [hrest, significant_split hc hread, spelled_cons, tokensAt_comments hc]
      split
      · rfl
      · rename_i hnewline
        have hchars := (hat read (by simp)).empty_iff.2 (hend.resolve_left hnewline)
        simp [Token.mark, hchars]

/-- A text without errors is all tokens. -/
theorem readable_of_parse (hok : (parse text).hasErrors = false) : Readable text := by
  obtain ⟨nodes, hnodes⟩ := nodes_of_parse hok
  have hat : (spelling text).At ⟨tokenize text, 0⟩ := (laid_tokenize text).stands
  obtain ⟨_, r, -, hcomments, -, ⟨read, hread, hu⟩, -⟩ := (spelling text).file hat hnodes
  intro t ht
  simp only at hread
  rw [hread] at ht
  rcases List.mem_append.1 ht with ht | ht
  · exact hu t ht
  · simp [hcomments t ht]

/-- Tokens that become nodes side by side spell themselves. -/
lemma flatMap_tokensAt_ofToken {ts : List Token} (hstands : ∀ t ∈ ts, t.Stands text) :
    (tokensAt text ((ts.filter (·.kind ≠ .newline)).map Node.ofToken)).flatMap Prod.snd =
      spelled (significant ts) := by
  induction ts with
  | nil => rfl
  | cons t ts ih =>
    have hrest := ih fun u hu => hstands u (by simp [hu])
    have ht := hstands t (by simp)
    by_cases hn : t.kind = .newline
    · rw [List.filter_cons_of_neg (by simp [hn]), significant_cons, if_neg (by simp [hn]),
        spelled_cons, if_pos (show t.mark.1 = .newline from hn), hrest]
    · rw [List.filter_cons_of_pos (by simp [hn]), List.map_cons, tokensAt_cons,
        List.flatMap_append, hrest, significant_cons]
      split
      · rename_i hc
        have hnone : tokensAt text ([t].map Node.ofToken) = [] :=
          tokensAt_comments (by simpa using hc)
        rw [← List.map_singleton, hnone]
        rfl
      · rename_i hc
        rw [spelled_ofToken ht hc, spelled_cons, if_neg (show t.mark.1 ≠ .newline from hn)]
        rfl

/-- Whether it has errors or not, the leaves of a text's tree spell its significant tokens. -/
theorem flatMap_leafTokens (text : List Char) :
    (parse text).leafTokens.flatMap Prod.snd = spelled (significant (tokenize text)) := by
  have hat : (spelling text).At ⟨tokenize text, 0⟩ := (laid_tokenize text).stands
  cases hnodes : fileNodes? (tokenize text) with
  | some nodes =>
    obtain ⟨a, r, rfl, hcomments, -, -, hspelled⟩ := (spelling text).file hat hnodes
    have hnone : significant r.rest = [] := all_comments_iff.1 (by simpa using hcomments)
    simp only at hspelled
    rw [(parse_of_nodes hnodes).2, tokensAt_append, tokensAt_comments hcomments, List.append_nil,
      hspelled, hnone]
    simp [spelled]
  | none =>
    rw [← flatMap_tokensAt_ofToken hat]
    simp [parse, hnodes, File.leafTokens]

end Mend.Go
