import Mathlib.Data.List.ProdSigma
import Mend.Proofs.Go.Spans
import Mend.Proofs.Go.Yields

/-! Sketches of what patterns read: which kinds of nodes may stand side by side, in which roles, and
which of them in front of which others. A sketch is computed from the pattern, so what a sketch
rules out stands in no tree of a text that follows the grammar. -/
namespace Mend.Go

/-- What a node is to its neighbours. -/
structure Tag where
  role? : Option Role
  kind : Kind
deriving DecidableEq

namespace Tag

/-- A role is given once. -/
def withRole (role : Role) (t : Tag) : Tag := ⟨t.role?.or role, t.kind⟩

end Tag

def Node.tag (n : Node) : Tag := ⟨n.role?, n.kind⟩

/-- The tags that a list of nodes may have: each of them is in `one`, and each pair of them, the one
in front first, is in `two`. -/
structure Sketch where
  one : List Tag
  two : List (Tag × Tag)

namespace Sketch

def Admits (S : Sketch) (ts : List Tag) : Prop :=
  (∀ t ∈ ts, t ∈ S.one) ∧ ts.Pairwise fun t u => (t, u) ∈ S.two

def nil : Sketch := ⟨[], []⟩

def single (t : Tag) : Sketch := ⟨[t], []⟩

def union (S T : Sketch) : Sketch := ⟨S.one ++ T.one, S.two ++ T.two⟩

def append (S T : Sketch) : Sketch :=
  ⟨S.one ++ T.one, S.two ++ T.two ++ S.one ×ˢ T.one⟩

def star (S : Sketch) : Sketch := ⟨S.one, S.one ×ˢ S.one⟩

def labelled (role? : Option Role) (S : Sketch) : Sketch :=
  match role? with
  | some role =>
    ⟨S.one.map (Tag.withRole role), S.two.map (Prod.map (Tag.withRole role) (Tag.withRole role))⟩
  | none => S

/-- Whether one sketch admits everything that another one admits. -/
def le (S T : Sketch) : Bool :=
  S.one.all (fun t => t ∈ T.one) && S.two.all fun p => p ∈ T.two

variable {S T : Sketch} {ts us : List Tag}

theorem admits_nil (S : Sketch) : S.Admits [] := ⟨by simp, .nil⟩

theorem admits_single (t : Tag) : (single t).Admits [t] := ⟨by simp [single], by simp⟩

theorem Admits.mono (h : S.Admits ts) (hle : S.le T = true) : T.Admits ts := by
  simp only [le, Bool.and_eq_true, List.all_eq_true, decide_eq_true_eq] at hle
  exact ⟨fun t ht => hle.1 t (h.1 t ht), h.2.imp fun hp => hle.2 _ hp⟩

theorem Admits.left (h : S.Admits ts) (T : Sketch) : (S.union T).Admits ts :=
  ⟨fun t ht => List.mem_append_left _ (h.1 t ht), h.2.imp (List.mem_append_left _)⟩

theorem Admits.right (h : T.Admits ts) (S : Sketch) : (S.union T).Admits ts :=
  ⟨fun t ht => List.mem_append_right _ (h.1 t ht), h.2.imp (List.mem_append_right _)⟩

theorem Admits.append (hS : S.Admits ts) (hT : T.Admits us) : (S.append T).Admits (ts ++ us) := by
  refine ⟨fun t ht => ?_, List.pairwise_append.2 ⟨?_, ?_, fun t ht u hu => ?_⟩⟩
  · exact (List.mem_append.1 ht).elim (fun ht => List.mem_append_left _ (hS.1 t ht))
      fun ht => List.mem_append_right _ (hT.1 t ht)
  · exact hS.2.imp fun hp => List.mem_append_left _ (List.mem_append_left _ hp)
  · exact hT.2.imp fun hp => List.mem_append_left _ (List.mem_append_right _ hp)
  · exact List.mem_append_right _ (List.mem_product.2 ⟨hS.1 t ht, hT.1 u hu⟩)

theorem Admits.star (h : S.Admits ts) : S.star.Admits ts :=
  ⟨h.1, List.pairwise_of_forall_mem_list fun t ht u hu =>
    List.mem_product.2 ⟨h.1 t ht, h.1 u hu⟩⟩

theorem Admits.star_append (hS : S.star.Admits ts) (hT : S.star.Admits us) :
    S.star.Admits (ts ++ us) := by
  have hmem : ∀ t ∈ ts ++ us, t ∈ S.one := fun t ht =>
    (List.mem_append.1 ht).elim (hS.1 t) (hT.1 t)
  exact ⟨hmem, List.pairwise_of_forall_mem_list fun t ht u hu =>
    List.mem_product.2 ⟨hmem t ht, hmem u hu⟩⟩

/-- Of two tags that differ, one is in front of the other. -/
theorem Admits.pair {t u : Tag} (h : S.Admits ts) (ht : t ∈ ts) (hu : u ∈ ts) (hne : t ≠ u) :
    (t, u) ∈ S.two ∨ (u, t) ∈ S.two := by
  let R (t u : Tag) := (t, u) ∈ S.two ∨ (u, t) ∈ S.two
  have : Std.Symm R := ⟨fun _ _ => Or.symm⟩
  have hpairs : ts.Pairwise R := h.2.imp .inl
  exact hpairs.forall ht hu hne

theorem Admits.withRole (h : S.Admits ts) (role : Role) :
    (S.labelled (some role)).Admits (ts.map (Tag.withRole role)) := by
  refine ⟨fun t ht => ?_, List.pairwise_map.2 (h.2.imp fun hp => ?_)⟩
  · obtain ⟨u, hu, rfl⟩ := List.mem_map.1 ht
    exact List.mem_map_of_mem (h.1 u hu)
  · exact List.mem_map_of_mem (f := Prod.map (Tag.withRole role) (Tag.withRole role)) hp

end Sketch

/-- Strings are tokens, so that nothing stands below their pieces. -/
def Node.IsString (n : Node) : Prop :=
  (n.kind = .interpretedStringLiteral ∨ n.kind = .rawStringLiteral) ∧
    ∀ c ∈ n.children, c.children = []

/-- The kind of the node of a token that a pattern asks for, where that is known beforehand. -/
def Terminal.nodeKind? : Terminal → Option Kind
  | fixed spelling => some (.fixed spelling)
  | name | word _ | kind .name => some .identifier
  | kind .intNumber => some .intLiteral
  | kind .floatNumber => some .floatLiteral
  | kind .imaginaryNumber => some .imaginaryLiteral
  | kind .rune => some .runeLiteral
  | kind .quotedString => some .interpretedStringLiteral
  | kind .rawString => some .rawStringLiteral
  | kind .endOfText => some (.fixed ['\x00'])
  | kind _ => none

/-- A survey of a grammar looks at some kinds of nodes only. It says what may stand beside each
other in what a symbol gives, what that symbol takes up, and what a node of some kind may consist
of. -/
structure Survey (σ : Type) where
  seen : Kind → Bool
  gives : σ → Sketch
  takes : σ → Sketch
  allows : Kind → Sketch → Bool

namespace Survey

variable {σ : Type} (V : Survey σ)

/-- The tags of the nodes that are looked at. -/
def tags (ns : List Node) : List Tag := (ns.map Node.tag).filter fun t => V.seen t.kind

/-- The sketch of a single node that has no role yet. -/
def single (kind : Kind) : Sketch := if V.seen kind then .single ⟨none, kind⟩ else .nil

/-- The sketch of what a pattern reads where that of what it takes up is `left`. -/
def sketch (left : Sketch) : Pattern σ → Sketch
  | .empty | .hidden _ | .ahead _ | .absent _ | .mayBrace => .nil
  | .token t kind? => ((kind?.or t.nodeKind?).map V.single).getD .nil
  | .symbol s => V.gives s
  | .seq p q => (sketch .nil p).append (sketch .nil q)
  | .alt p q => (sketch left p).union (sketch left q)
  | .many p => (sketch .nil p).star
  | .node kind _ | .around _ kind _ => V.single kind
  | .keep => left
  | .into p q => sketch (sketch left p) q
  | .chain p q => (sketch left p).union (sketch (sketch left p) q)
  | .role r p => (sketch left p).labelled (some r)
  | .header p | .inner p => sketch left p

/-- Whether a pattern keeps to the survey: nodes consist of what they may consist of, symbols take
up what they may take up, and what a chain gives does not change when it goes on. -/
def keeps (left : Sketch) : Pattern σ → Bool
  | .empty | .hidden _ | .ahead _ | .absent _ | .mayBrace | .keep => true
  | .token t kind? => (kind?.or t.nodeKind?).isSome
  | .symbol s => left.le (V.takes s)
  | .seq p q => keeps .nil p && keeps .nil q
  | .alt p q => keeps left p && keeps left q
  | .many p => keeps .nil p
  | .node kind p => keeps .nil p && V.allows kind (V.sketch .nil p)
  | .around role? kind p =>
    keeps .nil p && V.allows kind ((left.labelled role?).append (V.sketch .nil p))
  | .into p q => keeps left p && keeps (V.sketch left p) q
  | .chain p q =>
    let whole := V.sketch left (.chain p q)
    keeps left p && keeps whole q && (V.sketch whole q).le whole
  | .role _ p | .header p | .inner p => keeps left p

/-- A node has no children, is a string, or consists of what the survey allows. -/
def Drawn (n : Node) : Prop :=
  n.children = [] ∨ n.IsString ∨ ∃ S, V.allows n.kind S = true ∧ S.Admits (V.tags n.children)

/-- Nodes that a sketch admits, drawn all the way down. -/
def Fits (S : Sketch) (ns : List Node) : Prop :=
  S.Admits (V.tags ns) ∧ ∀ n ∈ ns, n.All V.Drawn

variable {V} {S T : Sketch} {ms ns : List Node}

lemma tag_mem {n : Node} (hn : n ∈ ns) (hseen : V.seen n.kind = true) : n.tag ∈ V.tags ns :=
  List.mem_filter.2 ⟨List.mem_map_of_mem hn, hseen⟩

@[simp] lemma tags_append : V.tags (ms ++ ns) = V.tags ms ++ V.tags ns := by
  simp [tags]

lemma pair_of_append {n m : Node} (h : S.Admits (V.tags (ms ++ n :: ns))) (hm : m ∈ ns)
    (hnseen : V.seen n.kind = true) (hmseen : V.seen m.kind = true) : (n.tag, m.tag) ∈ S.two := by
  rw [← List.singleton_append, tags_append, tags_append] at h
  exact (List.pairwise_append.1 (List.pairwise_append.1 h.2).2.1).2.2 _
    (tag_mem List.mem_cons_self hnseen) _ (tag_mem hm hmseen)

lemma tags_of_comments (hseen : V.seen .comment = false) (h : ∀ n ∈ ns, n.kind = .comment) :
    V.tags ns = [] := by
  simpa [tags, Node.tag, List.filter_eq_nil_iff] using fun n hn => (h n hn).symm ▸ hseen

lemma tag_withRole (role : Role) (n : Node) :
    (n.withRole role).tag = n.tag.withRole role ∨ n.kind = .comment ∧ n.withRole role = n := by
  obtain ⟨role?, kind, span, children⟩ := n
  cases role? with
  | none =>
    by_cases hk : kind = .comment
    · exact .inr ⟨hk, by simp [Node.withRole, hk]⟩
    · exact .inl (by simp [Node.withRole, hk, Node.tag, Tag.withRole, Node.role?])
  | some other => exact .inl rfl

lemma tags_withRole (hseen : V.seen .comment = false) (role : Role) :
    V.tags (ns.map (Node.withRole role)) = (V.tags ns).map (Tag.withRole role) := by
  induction ns with
  | nil => rfl
  | cons n ns ih =>
    rw [List.map_cons, ← List.singleton_append, ← List.singleton_append (l := ns), tags_append,
      tags_append, List.map_append, ih]
    congr 1
    rcases tag_withRole role n with h | ⟨hk, h⟩
    · simp only [tags, List.map_cons, List.map_nil, h]
      by_cases hn : V.seen n.kind = true <;> simp [Tag.withRole, Node.tag, hn]
    · have hn : V.tags [n] = [] := tags_of_comments hseen (by simpa using hk)
      rw [h, hn, List.map_nil]

theorem fits_nil (S : Sketch) : V.Fits S [] := ⟨S.admits_nil, by simp⟩

theorem fits_single {n : Node} (hrole : n.role? = none) (hn : n.All V.Drawn) :
    V.Fits (V.single n.kind) [n] := by
  refine ⟨?_, by simpa using hn⟩
  by_cases hseen : V.seen n.kind = true
  · simpa [tags, Node.tag, single, hseen, hrole] using Sketch.admits_single _
  · simpa [tags, Node.tag, hseen] using Sketch.admits_nil _

theorem Fits.mono (h : V.Fits S ns) (hle : S.le T = true) : V.Fits T ns := ⟨h.1.mono hle, h.2⟩

theorem Fits.append (hm : V.Fits S ms) (hn : V.Fits T ns) : V.Fits (S.append T) (ms ++ ns) :=
  ⟨by simpa using hm.1.append hn.1, fun n h => (List.mem_append.1 h).elim (hm.2 n) (hn.2 n)⟩

theorem Fits.left (h : V.Fits S ns) (T : Sketch) : V.Fits (S.union T) ns := ⟨h.1.left T, h.2⟩

theorem Fits.right (h : V.Fits T ns) (S : Sketch) : V.Fits (S.union T) ns := ⟨h.1.right S, h.2⟩

theorem Fits.star_append (hm : V.Fits S ms) (hn : V.Fits S.star ns) :
    V.Fits S.star (ms ++ ns) :=
  ⟨by simpa using hm.1.star.star_append hn.1,
    fun n h => (List.mem_append.1 h).elim (hm.2 n) (hn.2 n)⟩

/-- Comments count for nothing beside other nodes. -/
theorem Fits.comments_append (hseen : V.seen .comment = false)
    (hm : ∀ n ∈ ms, n.kind = .comment ∧ n.All V.Drawn) (hn : V.Fits S ns) :
    V.Fits S (ms ++ ns) := by
  refine ⟨?_, fun n h => (List.mem_append.1 h).elim (fun h => (hm n h).2) (hn.2 n)⟩
  rw [tags_append, tags_of_comments hseen fun n h => (hm n h).1]
  exact hn.1

theorem Fits.labelled (hseen : V.seen .comment = false) (h : V.Fits S ns) (role? : Option Role) :
    V.Fits (S.labelled role?) (labelled role? ns) := by
  cases role? with
  | none => exact h
  | some role =>
    refine ⟨(tags_withRole hseen role).symm ▸ h.1.withRole role, fun n hn => ?_⟩
    obtain ⟨m, hm, rfl⟩ := List.mem_map.1 hn
    obtain ⟨role?, hrole⟩ := Node.withRole_eq role m
    have hall := Node.all_iff.1 (h.2 m hm)
    exact hrole ▸ Node.all_iff.2 hall

theorem Fits.enclose (hseen : V.seen .comment = false) {kind : Kind} (h : V.Fits S ns)
    (hallows : V.allows kind S = true) (stop : Nat) :
    V.Fits (V.single kind) (enclose kind stop ns) := by
  rcases enclose_cases kind stop ns with ⟨heq, hcomments⟩ | ⟨comments, first, rest, rfl, hc, heq⟩
  · rw [heq]
    exact ⟨tags_of_comments hseen hcomments ▸ Sketch.admits_nil _, h.2⟩
  · rw [heq]
    refine .comments_append hseen (fun n hn => ⟨hc n hn, h.2 n (by simp [hn])⟩) ?_
    refine fits_single rfl (Node.all_iff.2 ⟨.inr (.inr ⟨S, hallows, ?_⟩), fun c hc => ?_⟩)
    · have hadmits := h.1
      rwa [tags_append, tags_of_comments hseen hc] at hadmits
    · exact h.2 c (List.mem_append_right _ hc)

lemma leaf_of_stringPieces (fuel : Nat) (cs : List Char) (pos : Nat) :
    ∀ n ∈ Node.stringPieces fuel cs pos, n.children = [] := by
  fun_induction Node.stringPieces fuel cs pos <;> simp_all [Node.leaf]

lemma leaf_of_ofString (t : Token) : ∀ n ∈ (Node.ofString t).children, n.children = [] := by
  have hpieces := leaf_of_stringPieces
  unfold Node.ofString
  split
  · simp [Node.leaf]
  · simp only [Node.children_mk, List.mem_append, List.mem_cons]
    rintro n ((rfl | hn) | (rfl | hn))
    · rfl
    · exact hpieces _ _ _ n hn
    · rfl
    · cases hn

lemma kind_ofString_eq (t : Token) : (Node.ofString t).kind =
    if t.kind = .rawString then .rawStringLiteral else .interpretedStringLiteral := by
  unfold Node.ofString
  split <;> simp_all

lemma role?_ofRead (kind? : Option Kind) (t : Token) : (Node.ofRead kind? t).role? = none := by
  have hleaf (kind : Kind) (start length : Nat) : (Node.leaf kind start length).role? = none := rfl
  have hstring : (Node.ofString t).role? = none := by
    unfold Node.ofString
    split <;> rfl
  cases kind? with
  | some kind => rfl
  | none => cases hk : t.kind <;> simp only [Node.ofRead, Node.ofToken, hk, hleaf, hstring]

lemma kind_ofRead {t : Terminal} {kind? : Option Kind} {kind : Kind} {read : Token}
    (hread : t.accepts read = true) (hk : kind?.or t.nodeKind? = some kind) :
    (Node.ofRead kind? read).kind = kind := by
  cases kind? with
  | some k => simpa [Node.ofRead] using hk
  | none =>
    simp only [Option.none_or] at hk
    unfold Node.ofRead
    cases t with
    | fixed | name | word => simp_all [Terminal.accepts, Terminal.nodeKind?, Node.ofToken]
    | kind k =>
      have hk' : read.kind = k := by simpa [Terminal.accepts] using hread
      cases k <;> simp_all [Terminal.nodeKind?, Node.ofToken, kind_ofString_eq]

theorem drawn_ofToken (t : Token) : (Node.ofToken t).All V.Drawn := by
  rcases Node.ofToken_cases t with hleaf | ⟨_, hstring⟩
  · exact Node.all_iff.2 ⟨.inl hleaf, by simp [hleaf]⟩
  · have hkind : (Node.ofString t).kind = .interpretedStringLiteral ∨
        (Node.ofString t).kind = .rawStringLiteral := by
      unfold Node.ofString
      split <;> simp
    have hleaf := leaf_of_ofString t
    rw [hstring]
    refine Node.all_iff.2 ⟨.inr (.inl ⟨hkind, hleaf⟩), fun c hc => ?_⟩
    exact Node.all_iff.2 ⟨.inl (hleaf c hc), by simp [hleaf c hc]⟩

/-- Every rule of a grammar keeps to the survey, and what it gives is known. Comments, which may
stand anywhere, are not looked at. -/
structure Covers (V : Survey σ) (grammar : σ → Pattern σ) : Prop where
  seen_comment : V.seen .comment = false
  keeps : ∀ s, V.keeps (V.takes s) (grammar s) = true
  gives : ∀ s, (V.sketch (V.takes s) (grammar s)).le (V.gives s) = true

/-- What a pattern yields fits its sketch. -/
theorem Covers.fits {grammar : σ → Pattern σ} (hV : V.Covers grammar) {p : Pattern σ}
    {left a : List Node} (h : Pattern.Yields grammar p left a) {L : Sketch}
    (hp : V.keeps L p = true) (hleft : V.Fits L left) : V.Fits (V.sketch L p) a := by
  have hseen := hV.seen_comment
  have hcomments {cs : List Token} (hc : ∀ c ∈ cs, c.kind = .comment) :
      ∀ n ∈ cs.map Node.ofToken, n.kind = .comment ∧ n.All V.Drawn := by
    rintro n hn
    obtain ⟨c, hmem, rfl⟩ := List.mem_map.1 hn
    exact ⟨Node.kind_ofToken.2 (hc c hmem), drawn_ofToken c⟩
  induction h generalizing L with
  | empty | manyNil | ahead | absent | mayBrace => exact fits_nil _
  | @token t kind? _ _ read hc hread =>
    obtain ⟨kind, hk⟩ := Option.isSome_iff_exists.1 hp
    refine .comments_append hseen (hcomments hc) ?_
    simp only [Survey.sketch, hk, Option.map_some, Option.getD_some]
    rw [← kind_ofRead hread hk]
    refine fits_single (role?_ofRead _ _) ?_
    cases kind? with
    | none => exact drawn_ofToken read
    | some kind => exact Node.all_iff.2 ⟨.inl rfl, by simp [Node.ofRead, Node.leaf]⟩
  | hidden hc =>
    rw [← List.append_nil (List.map _ _)]
    exact .comments_append hseen (hcomments hc) (fits_nil _)
  | @symbol x _ _ _ ih => exact (ih (hV.keeps x) (hleft.mono hp)).mono (hV.gives x)
  | seq _ _ ihp ihq =>
    simp only [Survey.keeps, Bool.and_eq_true] at hp
    exact (ihp hp.1 (fits_nil _)).append (ihq hp.2 (fits_nil _))
  | altLeft _ ih =>
    simp only [Survey.keeps, Bool.and_eq_true] at hp
    exact (ih hp.1 hleft).left _
  | altRight _ ih =>
    simp only [Survey.keeps, Bool.and_eq_true] at hp
    exact (ih hp.2 hleft).right _
  | manyCons _ _ ihp ihmany =>
    have hfirst := ihp hp (fits_nil _)
    have hmore := ihmany (L := .nil) hp (fits_nil _)
    exact hfirst.star_append hmore
  | node stop _ ih =>
    simp only [Survey.keeps, Bool.and_eq_true] at hp
    exact (ih hp.1 (fits_nil _)).enclose hseen hp.2 stop
  | around stop _ ih =>
    simp only [Survey.keeps, Bool.and_eq_true] at hp
    exact ((hleft.labelled hseen _).append (ih hp.1 (fits_nil _))).enclose hseen hp.2 stop
  | keep => exact hleft
  | into _ _ ihp ihq =>
    simp only [Survey.keeps, Bool.and_eq_true] at hp
    exact ihq hp.2 (ihp hp.1 hleft)
  | chainStop _ ih =>
    simp only [Survey.keeps, Bool.and_eq_true] at hp
    exact (ih hp.1.1 hleft).left _
  | chainMore _ _ ihchain ihq =>
    have hchain := ihchain hp hleft
    simp only [Survey.keeps, Bool.and_eq_true] at hp
    exact (ihq hp.1.2 hchain).mono hp.2
  | role _ ih => exact (ih hp hleft).labelled hseen _
  | header _ ih => exact ih hp hleft
  | inner _ ih => exact ih hp hleft

end Survey

/-- Whether a survey covers the grammar of Go is seen from finitely many rules, if it treats the
levels that no operator has alike. -/
theorem Survey.covers_of_symbols {V : Survey Symbol} (hseen : V.seen .comment = false)
    (hlevels : ∀ n, V.takes (.binary (n + 5)) = V.takes (.binary 5) ∧
      V.gives (.binary (n + 5)) = V.gives (.binary 5))
    (h : (Grammar.symbols.all fun x => V.keeps (V.takes x) (Grammar.rule x) &&
      (V.sketch (V.takes x) (Grammar.rule x)).le (V.gives x)) = true) :
    V.Covers Grammar.rule := by
  have hall (x : Symbol) : V.keeps (V.takes x) (Grammar.rule x) = true ∧
      (V.sketch (V.takes x) (Grammar.rule x)).le (V.gives x) = true := by
    rw [← Bool.and_eq_true]
    rcases Grammar.mem_symbols x with hx | ⟨n, rfl⟩
    · exact List.all_eq_true.1 h x hx
    · rw [(hlevels n).1, (hlevels n).2, Grammar.rule_binary]
      exact List.all_eq_true.1 h _ (by decide)
  exact ⟨hseen, fun x => (hall x).1, fun x => (hall x).2⟩

/-- All nodes of a Go file that follows the grammar are drawn as a survey of the grammar says. -/
theorem Survey.Covers.root_drawn {V : Survey Symbol} (hV : V.Covers Grammar.rule)
    (hfile : V.allows .sourceFile (V.gives .sourceFile) = true) {text : List Char}
    (hvalid : (parse text).hasErrors = false) : (parse text).root.All V.Drawn := by
  obtain ⟨start, a, s, hreads, hrest, hroot⟩ := exists_reads hvalid
  have hfits : V.Fits (V.gives .sourceFile) a :=
    hV.fits (.symbol hreads.yields) (L := .nil) rfl (fits_nil _)
  have hcomments : ∀ n ∈ s.rest.map Node.ofToken, n.kind = .comment ∧ n.All V.Drawn := by
    intro n hn
    obtain ⟨c, hc, rfl⟩ := List.mem_map.1 hn
    exact ⟨Node.kind_ofToken.2 (hrest c hc), drawn_ofToken c⟩
  rw [hroot]
  refine Node.all_iff.2 ⟨.inr (.inr ⟨V.gives .sourceFile, hfile, ?_⟩), fun n hn => ?_⟩
  · rw [Node.children_mk, tags_append,
      tags_of_comments hV.seen_comment fun n hn => (hcomments n hn).1, List.append_nil]
    exact hfits.1
  · exact (List.mem_append.1 hn).elim (hfits.2 n) fun hn => (hcomments n hn).2

/-- What a node may consist of, one child of it being no piece of a string. -/
lemma Survey.Drawn.exists_sketch {σ : Type} {V : Survey σ} {n m : Node} (h : V.Drawn n)
    (hm : m ∈ n.children) (hn : m.children ≠ []) :
    ∃ S, V.allows n.kind S = true ∧ S.Admits (V.tags n.children) := by
  rcases h with hnil | ⟨-, hleaf⟩ | h
  · rw [hnil] at hm
    cases hm
  · exact absurd (hleaf m hm) hn
  · exact h

end Mend.Go
