import Mend.Proofs.Go.Origins

/-! Patterns that give a single node, and patterns that give tokens of few kinds. Which patterns do
so, and of which kinds their nodes are, is computed from the patterns, with a table for what the
symbols stand for. -/
namespace Mend.Go

/-- Nodes of which the first one that is no comment is not empty and ends by `stop`. -/
def Starts (stop : Nat) (nodes : List Node) : Prop :=
  ∃ comments first rest, nodes = comments ++ first :: rest ∧ (∀ c ∈ comments, c.kind = .comment) ∧
    first.kind ≠ .comment ∧ first.span.start < first.span.stop ∧ first.span.stop ≤ stop

/-- Comments and behind them one node, of one of the kinds, not empty and with its end at `stop`. -/
def Single (kinds : List Kind) (stop : Nat) (nodes : List Node) : Prop :=
  ∃ comments n, nodes = comments ++ [n] ∧ (∀ c ∈ comments, c.kind = .comment) ∧
    (n.kind ∈ kinds ∧ n.kind ≠ .comment) ∧ n.span.start < n.span.stop ∧ n.span.stop = stop

section

variable {kinds kinds' : List Kind} {stop stop' : Nat} {ms ns : List Node}

lemma Starts.append (h : Starts stop ms) (hle : stop ≤ stop') (ns : List Node) :
    Starts stop' (ms ++ ns) := by
  obtain ⟨comments, first, rest, rfl, hc, hfirst, hlt, hstop⟩ := h
  exact ⟨comments, first, rest ++ ns, by simp, hc, hfirst, hlt, Nat.le_trans hstop hle⟩

lemma Starts.labelled (h : Starts stop ns) (role? : Option Role) :
    Starts stop (labelled role? ns) := by
  cases role? with
  | none => exact h
  | some role =>
    obtain ⟨comments, first, rest, rfl, hc, hfirst, hlt, hstop⟩ := h
    have hkind (n : Node) : (n.withRole role).kind = n.kind := by
      obtain ⟨_, hrole⟩ := Node.withRole_eq role n
      simp [hrole]
    refine ⟨comments.map (Node.withRole role), first.withRole role, rest.map (Node.withRole role),
      by simp [Go.labelled], ?_, by rwa [hkind], by simpa using hlt, by simpa using hstop⟩
    intro m hm
    obtain ⟨c, hmem, rfl⟩ := List.mem_map.1 hm
    rw [hkind, hc c hmem]

lemma Starts.enclose {kind : Kind} (h : Starts stop ns) (hk : kind ≠ .comment)
    (hle : stop ≤ stop') : Single [kind] stop' (enclose kind stop' ns) := by
  obtain ⟨comments, first, rest, rfl, hc, hfirst, hlt, hstop⟩ := h
  rw [enclose_append kind stop' hc hfirst]
  exact ⟨comments, _, rfl, hc, ⟨List.mem_singleton.2 rfl, hk⟩, by simp; omega, rfl⟩

lemma Single.starts (h : Single kinds stop ns) : Starts stop ns := by
  obtain ⟨comments, n, rfl, hc, ⟨-, hn⟩, hlt, rfl⟩ := h
  exact ⟨comments, n, [], rfl, hc, hn, hlt, Nat.le_refl _⟩

lemma Single.mono (h : Single kinds stop ns) (hsub : kinds ⊆ kinds') : Single kinds' stop ns := by
  obtain ⟨comments, n, hns, hc, ⟨hkind, hn⟩, hlt, hstop⟩ := h
  exact ⟨comments, n, hns, hc, ⟨hsub hkind, hn⟩, hlt, hstop⟩

end

lemma Terminal.kind_ne_endOfText {t : Terminal} {read : Token} (ht : t ≠ .kind .endOfText)
    (h : t.accepts read = true) : read.kind ≠ .endOfText := by
  intro hkind
  cases t <;> simp_all [Terminal.accepts]

namespace Pattern

variable {σ : Type}

/-- Whether a pattern reads a token first that is not empty. -/
def starts : Pattern σ → Bool
  | token t kind? => decide (t ≠ .kind .endOfText) && decide (kind? ≠ some .comment)
  | seq p _ => starts p
  | alt p q => starts p && starts q
  | _ => false

/-- The kinds of the nodes that a pattern gives, if it gives one at a time. `known` says whether
what it takes up starts with a token. -/
def single? (table : σ → Option (List Kind)) (known : Bool) : Pattern σ → Option (List Kind)
  | token t kind? =>
    if starts (token t kind? : Pattern σ) then (kind?.or t.nodeKind?).map ([·]) else none
  | symbol x => table x
  | alt p q => (single? table known p).bind fun ks => (single? table known q).map (ks ++ ·)
  | node kind p => if starts p && kind ≠ .comment then some [kind] else none
  | around _ kind _ => if known && kind ≠ .comment then some [kind] else none
  | chain p q => (single? table known p).bind fun ks => (single? table true q).map (ks ++ ·)
  | _ => none

variable {grammar : σ → Pattern σ} {text : List Char} {table : σ → Option (List Kind)}
  {p : Pattern σ} {left a : List Node} {r s : Reading} {ks : List Kind}

/-- The node of a token that is not empty ends where reading has got to. -/
lemma single_token {t : Terminal} {kind? : Option Kind} {comments : List Node} {read : Token}
    (hr : r.Of text) (h : r.token? t = some (comments, read, s))
    (hp : starts (token t kind? : Pattern σ) = true) :
    Single [(Node.ofRead kind? read).kind] s.last (comments ++ [Node.ofRead kind? read]) := by
  simp only [starts, Bool.and_eq_true, decide_eq_true_eq] at hp
  obtain ⟨-, hread, hlast, -, hcomments⟩ := hr.token? h
  obtain ⟨-, -, -, hkind, hacc, -, -⟩ := Reading.eq_of_token? h
  have hchars : read.chars ≠ [] := by
    simpa [hread.empty_iff] using Terminal.kind_ne_endOfText hp.1 hacc
  have hlen := List.length_pos_iff.2 hchars
  refine ⟨comments, _, rfl, fun c hc => (hcomments c hc).1, ⟨List.mem_singleton.2 rfl, ?_⟩, ?_, ?_⟩
  · cases kind? with
    | none => exact fun hk => hkind (Node.kind_ofToken.1 hk)
    | some kind => simpa [Node.ofRead] using hp.2
  · simp only [Node.span_ofRead, Token.stop]
    omega
  · rw [Node.span_ofRead, hlast]

/-- A pattern that starts with a token gives what starts with one. -/
theorem Reads.starts (h : Reads grammar p left r a s) (hr : r.Of text)
    (hp : p.starts = true) : Starts s.last a := by
  induction h with
  | token h => exact (single_token hr h hp).starts
  | seq hfirst hrest ih => exact (ih hr hp).append (hrest.of (hfirst.of hr).1).2 _
  | altLeft _ ih => exact ih hr (Bool.and_eq_true_iff.1 hp).1
  | altRight _ ih => exact ih hr (Bool.and_eq_true_iff.1 hp).2
  | _ => cases hp

/-- A pattern that gives one node at a time gives a single node, if it takes up what starts with a
token where that is taken for granted. -/
theorem Reads.single (table : σ → Option (List Kind)) (htable : ∀ x, (table x).all fun ks =>
      ((grammar x).single? table false).any fun ks' => decide (ks' ⊆ ks))
    (h : Reads grammar p left r a s) (hr : r.Of text) {known : Bool}
    (hleft : known = true → Starts r.last left) (hp : p.single? table known = some ks) :
    Single ks s.last a := by
  induction h generalizing known ks with
  | @token t kind? _ _ _ read _ h =>
    simp only [single?] at hp
    split at hp
    · rename_i hstarts
      obtain ⟨kind, hkind, rfl⟩ := Option.map_eq_some_iff.1 hp
      obtain ⟨-, -, -, -, hacc, -, -⟩ := Reading.eq_of_token? h
      exact Survey.kind_ofRead hacc hkind ▸ single_token hr h hstarts
    · cases hp
  | @symbol x _ _ _ _ _ ih =>
    have hx := htable x
    rw [show table x = some ks from hp, Option.all_some, Option.any_eq_true] at hx
    obtain ⟨ks', hks', hsub⟩ := hx
    exact (ih hr (by simp) hks').mono (by simpa using hsub)
  | altLeft _ ih =>
    obtain ⟨ks₁, h₁, hp⟩ := Option.bind_eq_some_iff.1 hp
    obtain ⟨ks₂, -, rfl⟩ := Option.map_eq_some_iff.1 hp
    exact (ih hr hleft h₁).mono (List.subset_append_left _ _)
  | altRight _ ih =>
    obtain ⟨ks₁, -, hp⟩ := Option.bind_eq_some_iff.1 hp
    obtain ⟨ks₂, h₂, rfl⟩ := Option.map_eq_some_iff.1 hp
    exact (ih hr hleft h₂).mono (List.subset_append_right _ _)
  | node hchildren =>
    simp only [single?, Option.ite_none_right_eq_some, Bool.and_eq_true, decide_eq_true_eq,
      Option.some.injEq] at hp
    obtain ⟨⟨hstarts, hk⟩, rfl⟩ := hp
    exact (hchildren.starts hr hstarts).enclose hk (Nat.le_refl _)
  | around hchildren =>
    simp only [single?, Option.ite_none_right_eq_some, Bool.and_eq_true, decide_eq_true_eq,
      Option.some.injEq] at hp
    obtain ⟨⟨hknown, hk⟩, rfl⟩ := hp
    have hle := (hchildren.of hr).2
    exact (((hleft hknown).labelled _).append hle _).enclose hk (Nat.le_refl _)
  | chainStop _ ih =>
    obtain ⟨ks₁, h₁, hp⟩ := Option.bind_eq_some_iff.1 hp
    obtain ⟨ks₂, -, rfl⟩ := Option.map_eq_some_iff.1 hp
    exact (ih hr hleft h₁).mono (List.subset_append_left _ _)
  | chainMore hchain _ ih ih' =>
    have hwhole := hp
    obtain ⟨ks₁, -, hp⟩ := Option.bind_eq_some_iff.1 hp
    obtain ⟨ks₂, h₂, rfl⟩ := Option.map_eq_some_iff.1 hp
    have hstart := (ih hr hleft hwhole).starts
    exact (ih' (hchain.of hr).1 (fun _ => hstart) h₂).mono (List.subset_append_right _ _)
  | _ => cases hp

/-- Whether a pattern gives leaves of some kinds only. -/
def gathers (ks : List Kind) : Pattern σ → Bool
  | empty => true
  | token t kind? => (kind?.or t.nodeKind?).any (· ∈ ks)
  | seq p q | alt p q => gathers ks p && gathers ks q
  | many p | role _ p => gathers ks p
  | _ => false

theorem Reads.gathers (h : Reads grammar p left r a s) (ks : List Kind) (hp : p.gathers ks = true) :
    ∀ n ∈ a, n.kind = .comment ∨ n.kind ∈ ks := by
  induction h with
  | empty | manyNil => simp
  | @token t kind? _ _ _ read _ h =>
    obtain ⟨kind, hkind, hmem⟩ := (Option.any_eq_true _ _).1 hp
    obtain ⟨_, -, hc, -, hacc, rfl, -⟩ := Reading.eq_of_token? h
    intro n hn
    rcases List.mem_append.1 hn with hn | hn
    · obtain ⟨c, hmem, rfl⟩ := List.mem_map.1 hn
      exact .inl (Node.kind_ofToken.2 (hc c hmem))
    · obtain rfl := List.mem_singleton.1 hn
      rw [Survey.kind_ofRead hacc hkind]
      exact .inr (by simpa using hmem)
  | seq _ _ ih ih' =>
    obtain ⟨hp, hq⟩ := Bool.and_eq_true_iff.1 hp
    exact fun n hn => (List.mem_append.1 hn).elim (ih hp n) (ih' hq n)
  | altLeft _ ih => exact ih (Bool.and_eq_true_iff.1 hp).1
  | altRight _ ih => exact ih (Bool.and_eq_true_iff.1 hp).2
  | manyCons _ _ ih ih' => exact fun n hn => (List.mem_append.1 hn).elim (ih hp n) (ih' hp n)
  | role _ ih =>
    intro n hn
    obtain ⟨m, hm, rfl⟩ := List.mem_map.1 hn
    obtain ⟨_, hrole⟩ := Node.withRole_eq _ m
    rw [hrole]
    exact ih hp m hm
  | _ => cases hp

end Pattern

/-- The kinds of types. -/
def Kind.types : List Kind := [
  .arrayType, .channelType, .functionType, .genericType, .interfaceType, .mapType, .negatedType,
  .parenthesizedType, .pointerType, .qualifiedType, .sliceType, .structType, .typeIdentifier]

/-- The symbols that stand for types. -/
def typeTable : Symbol → Option (List Kind)
  | .type | .simpleType | .literalType | .typeName => some Kind.types
  | _ => none

/-- A type is a single node. -/
theorem single_of_type {text : List Char} {left a : List Node} {r s : Reading}
    (h : Pattern.Reads Grammar.rule (.symbol .type) left r a s) (hr : r.Of text) :
    Single Kind.types s.last a := by
  refine h.single typeTable (fun x => ?_) hr (fun hknown : false = true => nomatch hknown) rfl
  cases x
  case binary level => rfl
  all_goals decide +kernel

end Mend.Go
