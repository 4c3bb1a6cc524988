import Mend.Proofs.Go.Reads
import Mend.Proofs.Go.Rows
import Mend.Proofs.Go.Sketches

/-! Where the nodes of a tree come from. A node belongs to a token, or a pattern of the grammar put
it around what was read; which patterns give nodes of a kind is seen from the grammar, and so is
what such a node consists of. -/
namespace Mend.Go

/-- The node has the nodes as its children, from the first one on that is no comment; it starts with
that one and goes on to the place `stop`. -/
structure Node.Encloses (n : Node) (stop : Nat) (nodes : List Node) : Prop where
  children : ∃ comments, nodes = comments ++ n.children ∧ ∀ c ∈ comments, c.kind = .comment
  first : ∃ first, n.children.head? = some first ∧ first.kind ≠ .comment ∧
    n.span.start = first.span.start
  stop : n.span.stop = stop

/-- What a node has as its children is settled by its first child that is no comment. -/
lemma Node.Encloses.of_append {n first : Node} {comments rest : List Node} {stop : Nat}
    (h : n.Encloses stop (comments ++ first :: rest)) (hc : ∀ c ∈ comments, c.kind = .comment)
    (hfirst : first.kind ≠ .comment) :
    n.children = first :: rest ∧ n.span = ⟨first.span.start, stop⟩ := by
  obtain ⟨⟨comments', heq, hc'⟩, ⟨first', hhead, hfirst', hstart⟩, hstop⟩ := h
  have hdrop {cs ns : List Node} {m : Node} (hcs : ∀ c ∈ cs, c.kind = .comment)
      (hm : ns.head? = some m) (hk : m.kind ≠ .comment) :
      (cs ++ ns).dropWhile Node.isComment = ns := by
    obtain ⟨ns, rfl⟩ := List.head?_eq_some_iff.1 hm
    rw [List.dropWhile_append_of_pos (by simpa [Node.isComment] using hcs)]
    simp [Node.isComment, hk]
  have hchildren : n.children = first :: rest := by
    rw [← hdrop hc' hhead hfirst', ← heq, hdrop hc rfl hfirst]
  rw [hchildren, List.head?_cons, Option.some.injEq] at hhead
  exact ⟨hchildren, by rw [hhead, ← hstart, ← hstop]⟩

lemma enclose_append {comments rest : List Node} {first : Node} (kind : Kind) (stop : Nat)
    (hc : ∀ c ∈ comments, c.kind = .comment) (hfirst : first.kind ≠ .comment) :
    enclose kind stop (comments ++ first :: rest) =
      comments ++ [.mk none kind ⟨first.span.start, stop⟩ (first :: rest)] := by
  have htake : (comments ++ first :: rest).takeWhile Node.isComment = comments := by
    rw [List.takeWhile_append_of_pos (by simpa [Node.isComment] using hc)]
    simp [Node.isComment, hfirst]
  simp only [enclose, htake, List.drop_left]

lemma exists_encloses (kind : Kind) (stop : Nat) (nodes : List Node) :
    (enclose kind stop nodes = nodes ∧ ∀ n ∈ nodes, n.kind = .comment) ∨
      ∃ comments n, nodes = comments ++ n.children ∧ enclose kind stop nodes = comments ++ [n] ∧
        n.kind = kind ∧ n.Encloses stop nodes := by
  have hc : ∀ c ∈ nodes.takeWhile Node.isComment, c.kind = .comment := fun c hc => by
    simpa [Node.isComment] using List.all_eq_true.1 List.all_takeWhile c hc
  have hsplit := List.takeWhile_append_dropWhile (p := Node.isComment) (l := nodes)
  have hnot := List.head?_dropWhile_not Node.isComment nodes
  cases hdrop : nodes.dropWhile Node.isComment with
  | nil =>
    rw [hdrop, List.append_nil] at hsplit
    rw [hsplit] at hc
    refine .inl ⟨?_, hc⟩
    simp [enclose, hsplit]
  | cons first rest =>
    rw [hdrop] at hsplit hnot
    have hfirst : first.kind ≠ .comment := by simpa [Node.isComment] using hnot
    refine .inr ⟨_, .mk none kind ⟨first.span.start, stop⟩ (first :: rest), hsplit.symm, ?_, rfl,
      ⟨_, hsplit.symm, hc⟩, ⟨first, rfl, hfirst, rfl⟩, rfl⟩
    conv => lhs; rw [← hsplit]
    exact enclose_append kind stop hc hfirst

namespace Pattern

variable {σ : Type}

/-- A pattern and the patterns within it that read nodes. -/
def parts (p : Pattern σ) : List (Pattern σ) :=
  p :: match p with
    | seq q r | alt q r | into q r | chain q r => q.parts ++ r.parts
    | many q | node _ q | around _ _ q | role _ q | header q | inner q => q.parts
    | _ => []

/-- What holds of the nodes of tokens and of the nodes that a grammar makes, whatever part they
play. -/
structure Founded (grammar : σ → Pattern σ) (text : List Char) (P : Node → Prop) : Prop where
  role : ∀ {n} role, P n → P (n.withRole role)
  token : ∀ {x t kind? read}, .token t kind? ∈ (grammar x).parts → t.accepts read = true →
    (Node.ofRead kind? read).All P
  comment : ∀ {c : Token}, c.kind = .comment → (Node.ofToken c).All P
  node : ∀ {x kind p r a s n}, .node kind p ∈ (grammar x).parts → r.Of text →
    Reads grammar p [] r a s → n.kind = kind → n.Encloses s.last a → P n
  around : ∀ {x role? kind p left r a s n}, .around role? kind p ∈ (grammar x).parts →
    Reads grammar p [] r a s → n.kind = kind → n.Encloses s.last (labelled role? left ++ a) → P n

variable {grammar : σ → Pattern σ} {text : List Char} {P : Node → Prop} {p : Pattern σ}
  {left a : List Node} {r s : Reading}

/-- Reading goes on from a place of the text to another one, which is not further in front. -/
theorem Reads.of (h : Reads grammar p left r a s) (hr : r.Of text) :
    s.Of text ∧ r.last ≤ s.last := by
  have htoken {t : Terminal} {r s : Reading} {nodes : List Node} {read : Token} (hr : r.Of text)
      (h : r.token? t = some (nodes, read, s)) : s.Of text ∧ r.last ≤ s.last := by
    obtain ⟨hs, -, hlast, hrow, -⟩ := hr.token? h
    exact ⟨hs, Nat.le_trans hrow.start_le_stop (hlast ▸ Nat.le_add_right _ _)⟩
  induction h with
  | token h | hidden h => exact htoken hr h
  | empty | manyNil | keep | ahead | absent | mayBrace => exact ⟨hr, Nat.le_refl _⟩
  | symbol _ ih | altLeft _ ih | altRight _ ih | node _ ih | around _ ih | chainStop _ ih
  | role _ ih | header _ ih | inner _ ih => exact ih hr
  | seq _ _ ih ih' | manyCons _ _ ih ih' | into _ _ ih ih' | chainMore _ _ ih ih' =>
    exact ⟨(ih' (ih hr).1).1, Nat.le_trans (ih hr).2 (ih' (ih hr).1).2⟩

lemma Founded.labelled (hP : Founded grammar text P) (role? : Option Role)
    (h : ∀ n ∈ a, n.All P) : ∀ n ∈ labelled role? a, n.All P := by
  cases role? with
  | none => exact h
  | some role =>
    intro n hn
    obtain ⟨m, hm, rfl⟩ := List.mem_map.1 hn
    obtain ⟨hself, hchildren⟩ := Node.all_iff.1 (h m hm)
    obtain ⟨_, hrole⟩ := Node.withRole_eq role m
    refine Node.all_iff.2 ⟨hP.role role hself, ?_⟩
    rwa [hrole]

lemma Founded.enclose {kind : Kind} {stop : Nat} (h : ∀ n ∈ a, n.All P)
    (hn : ∀ n : Node, n.kind = kind → n.Encloses stop a → P n) :
    ∀ n ∈ enclose kind stop a, n.All P := by
  rcases exists_encloses kind stop a with ⟨heq, -⟩ | ⟨comments, m, hnodes, heq, hkind, hm⟩
  · rwa [heq]
  · rw [hnodes] at h
    intro n hmem
    rw [heq] at hmem
    rcases List.mem_append.1 hmem with hmem | hmem
    · exact h n (List.mem_append_left _ hmem)
    · obtain rfl := List.mem_singleton.1 hmem
      exact Node.all_iff.2 ⟨hn n hkind hm, fun c hc => h c (List.mem_append_right _ hc)⟩

/-- What is founded in a grammar holds throughout what the grammar reads. -/
theorem Founded.reads (hP : Founded grammar text P) (h : Reads grammar p left r a s)
    (hp : ∀ q ∈ p.parts, ∃ x, q ∈ (grammar x).parts) (hr : r.Of text)
    (hleft : ∀ n ∈ left, n.All P) : ∀ n ∈ a, n.All P := by
  have hcomments {t : Terminal} {r s : Reading} {comments : List Node} {read : Token}
      (h : r.token? t = some (comments, read, s)) : ∀ n ∈ comments, n.All P := by
    obtain ⟨cs, _, hc, _, _, rfl, _⟩ := Reading.eq_of_token? h
    intro n hn
    obtain ⟨c, hmem, rfl⟩ := List.mem_map.1 hn
    exact hP.comment (hc c hmem)
  have happend {b c : List Node} (hb : ∀ n ∈ b, n.All P) (hc : ∀ n ∈ c, n.All P) :
      ∀ n ∈ b ++ c, n.All P :=
    fun n hn => (List.mem_append.1 hn).elim (hb n) (hc n)
  have hnil : ∀ n ∈ ([] : List Node), n.All P := by simp
  induction h with
  | empty | manyNil | ahead | absent | mayBrace => exact hnil
  | @token t kind? _ _ comments read _ h =>
    obtain ⟨x, hx⟩ := hp _ List.mem_cons_self
    obtain ⟨_, _, _, _, hacc, _⟩ := Reading.eq_of_token? h
    exact happend (hcomments h) (by simpa using hP.token hx hacc)
  | hidden h => exact hcomments h
  | @symbol x _ _ _ _ _ ih => exact ih (fun q hq => ⟨x, hq⟩) hr hleft
  | seq hfirst _ ihp ihq =>
    refine happend (ihp (fun q hq => hp q ?_) hr hnil)
      (ihq (fun q hq => hp q ?_) (hfirst.of hr).1 hnil)
    · simp [parts, hq]
    · simp [parts, hq]
  | altLeft _ ih => exact ih (fun q hq => hp q (by simp [parts, hq])) hr hleft
  | altRight _ ih => exact ih (fun q hq => hp q (by simp [parts, hq])) hr hleft
  | manyCons hfirst _ ihp ihmany =>
    exact happend (ihp (fun q hq => hp q (by simp [parts, hq])) hr hnil)
      (ihmany hp (hfirst.of hr).1 hnil)
  | node hchildren ih =>
    obtain ⟨x, hx⟩ := hp _ List.mem_cons_self
    refine Founded.enclose (ih (fun q hq => hp q ?_) hr hnil) fun n => hP.node hx hr hchildren
    simp [parts, hq]
  | @around role? _ _ _ _ _ _ hchildren ih =>
    obtain ⟨x, hx⟩ := hp _ List.mem_cons_self
    refine Founded.enclose (happend (hP.labelled role? hleft) (ih (fun q hq => hp q ?_) hr hnil))
      fun n => hP.around hx hchildren
    simp [parts, hq]
  | keep => exact hleft
  | into hfirst _ ihp ihq =>
    exact ihq (fun q hq => hp q (by simp [parts, hq])) (hfirst.of hr).1
      (ihp (fun q hq => hp q (by simp [parts, hq])) hr hleft)
  | chainStop _ ih => exact ih (fun q hq => hp q (by simp [parts, hq])) hr hleft
  | chainMore hfirst _ ihchain ihq =>
    exact ihq (fun q hq => hp q (by simp [parts, hq])) (hfirst.of hr).1
      (ihchain hp hr hleft)
  | @role part _ _ _ _ _ _ ih =>
    exact hP.labelled (some part) (ih (fun q hq => hp q (by simp [parts, hq])) hr hleft)
  | header _ ih => exact ih (fun q hq => hp q (by simp [parts, hq])) hr hleft
  | inner _ ih => exact ih (fun q hq => hp q (by simp [parts, hq])) hr hleft

deriving instance DecidableEq for Pattern

/-- Whether a pattern gives a node of a kind only by putting it around what one of the patterns
`ps` reads. -/
def gives [DecidableEq σ] (k : Kind) (ps : List (Pattern σ)) : Pattern σ → Bool
  | token t kind? => (kind?.or t.nodeKind?).any (· ≠ k)
  | node kind p => kind ≠ k || p ∈ ps
  | around _ kind _ => kind ≠ k
  | _ => true

end Pattern

/-- The node was put around what one of the patterns read. -/
def Node.MadeOf {σ : Type} (grammar : σ → Pattern σ) (text : List Char) (ps : List (Pattern σ))
    (n : Node) : Prop :=
  ∃ p ∈ ps, ∃ r a s, Reading.Of text r ∧ Pattern.Reads grammar p [] r a s ∧ n.Encloses s.last a

/-- The kinds of comments and of the pieces of strings. -/
def Kind.isPiece : Kind → Bool
  | .comment | .escapeSequence | .interpretedStringLiteralContent | .rawStringLiteralContent
  | .fixed _ => true
  | _ => false

lemma Node.isPiece_of_mem_stringPieces {fuel : Nat} {cs : List Char} {pos : Nat} :
    ∀ n ∈ stringPieces fuel cs pos, n.kind.isPiece = true := by
  fun_induction stringPieces fuel cs pos <;> simp_all [leaf, Kind.isPiece]

lemma Node.isPiece_of_mem_ofString {t : Token} :
    ∀ n ∈ (ofString t).children, n.kind.isPiece = true := by
  unfold ofString
  split
  · simp [leaf, Kind.isPiece]
  · simp only [children_mk, List.mem_append, List.mem_cons]
    rintro n ((rfl | hn) | (rfl | hn))
    · rfl
    · exact isPiece_of_mem_stringPieces n hn
    · rfl
    · cases hn

lemma Node.isPiece_of_mem_ofToken {t : Token} {n : Node} (h : n ∈ (ofToken t).children) :
    n.kind.isPiece = true ∧ n.children = [] := by
  rcases ofToken_cases t with hleaf | ⟨-, hstring⟩
  · simp [hleaf] at h
  · rw [hstring] at h
    exact ⟨isPiece_of_mem_ofString n h, Survey.leaf_of_ofString t n h⟩

namespace Pattern

variable {σ : Type} [DecidableEq σ] {grammar : σ → Pattern σ} {text : List Char} {k : Kind}
  {ps : List (Pattern σ)}

omit [DecidableEq σ] in
/-- No piece of a token is of a kind that pieces do not have. -/
lemma vacuous_of_mem_ofToken {P : Node → Prop} {t : Token} {c : Node} (hk : k.isPiece = false)
    (hc : c ∈ (Node.ofToken t).children) : c.All fun n => n.kind = k → P n := by
  obtain ⟨hpiece, hleaf⟩ := Node.isPiece_of_mem_ofToken hc
  refine Node.all_iff.2 ⟨fun h => ?_, by simp [hleaf]⟩
  rw [← h, hpiece] at hk
  cases hk

lemma founded_madeOf (hk : k.isPiece = false)
    (hg : ∀ x, ∀ q ∈ (grammar x).parts, q.gives k ps = true) :
    Founded grammar text fun n => n.kind = k → n.MadeOf grammar text ps where
  role {n} role h := by
    obtain ⟨_, hrole⟩ := Node.withRole_eq role n
    rw [hrole]
    intro hn
    obtain ⟨p, hp, r, a, s, hr, hreads, hn⟩ := h hn
    exact ⟨p, hp, r, a, s, hr, hreads, hn.children, hn.first, hn.stop⟩
  token {x t kind? read} hx hacc := by
    obtain ⟨kind, hkind, hne⟩ : ∃ kind, kind?.or t.nodeKind? = some kind ∧ kind ≠ k := by
      simpa [gives, Option.any_eq_true] using hg x _ hx
    have hread := Survey.kind_ofRead hacc hkind
    refine Node.all_iff.2 ⟨fun h => absurd (hread.symm.trans h) hne, fun c hc => ?_⟩
    cases kind? with
    | some kind => cases hc
    | none => exact vacuous_of_mem_ofToken hk hc
  comment {c} hc := by
    refine Node.all_iff.2 ⟨fun h => ?_, fun m hm => vacuous_of_mem_ofToken hk hm⟩
    rw [Node.kind_ofToken.2 hc] at h
    exact absurd hk (by simp [← h, Kind.isPiece])
  node := by
    intro x kind p r a s n hx hr hreads hkind hn hnk
    have hgives := hg x _ hx
    rw [← hkind, hnk] at hgives
    exact ⟨p, by simpa [gives] using hgives, r, a, s, hr, hreads, hn⟩
  around := by
    intro x role? kind p left r a s n hx _ hkind _ hnk
    have hgives := hg x _ hx
    rw [← hkind, hnk] at hgives
    simp [gives] at hgives

end Pattern

def Kind.isString (k : Kind) : Bool := k = .interpretedStringLiteral || k = .rawStringLiteral

/-- A string consists of pieces. -/
def Node.Pieced (n : Node) : Prop :=
  n.kind.isString = true → ∀ m ∈ n.children, m.kind.isPiece = true

namespace Pattern

variable {σ : Type} {grammar : σ → Pattern σ} {text : List Char}

/-- Whether a pattern puts the node of a string around nothing. -/
def sparesStrings : Pattern σ → Bool
  | node kind _ | around _ kind _ => !kind.isString
  | _ => true

lemma pieced_ofToken (t : Token) : (Node.ofToken t).All Node.Pieced := by
  refine Node.all_iff.2 ⟨fun _ n hn => (Node.isPiece_of_mem_ofToken hn).1, fun n hn => ?_⟩
  have hleaf := (Node.isPiece_of_mem_ofToken hn).2
  exact Node.all_iff.2 ⟨by simp [Node.Pieced, hleaf], by simp [hleaf]⟩

lemma founded_pieced (hg : ∀ x, ∀ q ∈ (grammar x).parts, q.sparesStrings = true) :
    Founded grammar text Node.Pieced where
  role {n} role h := by
    obtain ⟨_, hrole⟩ := Node.withRole_eq role n
    rwa [hrole]
  token {x t kind? read} _ _ := by
    cases kind? with
    | none => exact pieced_ofToken read
    | some kind =>
      exact Node.all_iff.2 ⟨by simp [Node.Pieced, Node.ofRead, Node.leaf],
        by simp [Node.ofRead, Node.leaf]⟩
  comment {c} _ := pieced_ofToken c
  node hx _ _ hkind _ hstring := by
    have hspares := hg _ _ hx
    rw [sparesStrings, ← hkind, hstring] at hspares
    cases hspares
  around hx _ hkind _ hstring := by
    have hspares := hg _ _ hx
    rw [sparesStrings, ← hkind, hstring] at hspares
    cases hspares

end Pattern

namespace Grammar

/-- All patterns within the grammar's rules. -/
def parts : List P := symbols.flatMap fun x => (rule x).parts

lemma mem_parts {x : Symbol} {q : P} (hq : q ∈ (rule x).parts) : q ∈ parts := by
  obtain ⟨y, hy, hrule⟩ := exists_symbol x
  exact List.mem_flatMap.2 ⟨y, hy, hrule ▸ hq⟩

end Grammar

/-- What is founded in the grammar of Go holds throughout a file that follows the grammar, if it
holds of the file as a whole. -/
theorem Pattern.Founded.root {text : List Char} {P : Node → Prop}
    (hP : Pattern.Founded Grammar.rule text P)
    (hvalid : (parse text).hasErrors = false) (hroot : P (parse text).root) :
    (parse text).root.All P := by
  obtain ⟨start, a, s, hreads, hrest, heq⟩ := exists_reads hvalid
  refine Node.all_iff.2 ⟨hroot, ?_⟩
  rw [heq, Node.children_mk]
  intro n hn
  rcases List.mem_append.1 hn with hn | hn
  · exact hP.reads hreads (fun q hq => ⟨_, hq⟩) (Reading.of_start text) (by simp) n hn
  · obtain ⟨t, ht, rfl⟩ := List.mem_map.1 hn
    exact hP.comment (hrest t ht)

/-- The kinds of nodes that fixes do not tell apart. All that they do not look for is one kind to
them. -/
def Kind.seenAs? : NodeKind → Option (List Kind)
  | .sourceFile => some [.sourceFile]
  | .reference | .definition => some [.identifier]
  | .name => some [.packageIdentifier, .fieldIdentifier, .typeIdentifier]
  | .parameterDeclaration => some [.parameterDeclaration, .variadicParameterDeclaration]
  | .functionDeclaration => some [.functionDeclaration, .methodDeclaration]
  | .packageClause => some [.packageClause]
  | .switchStatement => some [.expressionSwitchStatement]
  | .caseClause => some [.expressionCase]
  | .defaultClause => some [.defaultCase]
  | .stringLiteral => some [.interpretedStringLiteral, .rawStringLiteral]
  | .numberLiteral => some [.intLiteral, .floatLiteral, .imaginaryLiteral]
  | .comment => some [.comment]
  | .other => none

lemma Cursor.kind_mem {c : Cursor} {ks : List Kind} (h : Kind.seenAs? c.nodeKind = some ks) :
    c.node.kind ∈ ks := by
  unfold nodeKind at h
  split at h
  case h_2 hk => split at h <;> cases h <;> simp [hk]
  all_goals cases h
  all_goals simp [*]

/-- Where only the patterns `ps` of the grammar give nodes of a kind, the nodes of that kind in a
file that follows the grammar are made of what these patterns read. -/
theorem madeOf_of_reachable {text : List Char} (ps : List Grammar.P)
    (hvalid : (parse text).hasErrors = false) {k : Kind} (hk : k.isPiece = false)
    (hfile : k ≠ .sourceFile) (hg : Grammar.parts.all (Pattern.gives k ps) = true) {c : Cursor}
    (hreach : (parse text).tree.Reachable c) (hkind : c.node.kind = k) :
    c.node.MadeOf Grammar.rule text ps := by
  have hfounded : Pattern.Founded Grammar.rule text
      fun n => n.kind = k → n.MadeOf Grammar.rule text ps :=
    Pattern.founded_madeOf hk fun _ q hq => List.all_eq_true.1 hg q (Grammar.mem_parts hq)
  refine (File.all_of_reachable (hfounded.root hvalid fun h => ?_) hreach _ (by simp)).self hkind
  rw [kind_root] at h
  exact absurd h.symm hfile

/-- What stands in a string of a file that follows the grammar is a piece of it. -/
theorem pieced_of_reachable {text : List Char} (hvalid : (parse text).hasErrors = false)
    {c : Cursor} (hreach : (parse text).tree.Reachable c) : ∀ n ∈ c.around, n.Pieced := by
  have hall : (Grammar.parts.all Pattern.sparesStrings) = true := by decide +kernel
  have hfounded : Pattern.Founded Grammar.rule text Node.Pieced :=
    Pattern.founded_pieced fun _ q hq => List.all_eq_true.1 hall q (Grammar.mem_parts hq)
  intro n hn
  refine (File.all_of_reachable (hfounded.root hvalid fun h => ?_) hreach n (by simp [hn])).self
  rw [kind_root] at h
  cases h

end Mend.Go
