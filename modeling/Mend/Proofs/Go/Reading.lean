import Mathlib.Tactic.Lemma
import Mend.Go.Parse

/-! Two readings of one pattern, side by side. A relation between readings that single tokens,
sequences and new nodes keep is kept by every pattern, however deep the descent. -/
namespace Mend.Go

/-- Tokens that become nodes: comments are passed over, ends of lines leave nothing, and what is no
token is no part of a program. -/
def Terminal.Readable (t : Terminal) : Prop :=
  t ≠ .kind .comment ∧ t ≠ .kind .unknown ∧ t ≠ .kind .newline

instance (t : Terminal) : Decidable t.Readable := inferInstanceAs (Decidable (_ ∧ _ ∧ _))

/-- The tokens that end statements, which leave no node. -/
def Terminal.Ending (t : Terminal) : Prop := t = .kind .newline ∨ t = .kind .endOfText

instance (t : Terminal) : Decidable t.Ending := inferInstanceAs (Decidable (_ ∨ _))

theorem Terminal.Readable.kind {t : Terminal} {token : Token} (h : t.Readable)
    (ht : t.accepts token = true) : token.kind ≠ .unknown ∧ token.kind ≠ .newline := by
  obtain ⟨_, hu, hn⟩ := h
  cases t <;> simp_all [Terminal.accepts]

theorem Terminal.Ending.kind {t : Terminal} {token : Token} (h : t.Ending)
    (ht : t.accepts token = true) : token.kind = .newline ∨ token.kind = .endOfText := by
  rcases h with rfl | rfl <;> simp_all [Terminal.accepts]

/-- The node of a token that a pattern asks for. -/
def Node.ofRead (kind? : Option Kind) (t : Token) : Node :=
  match kind? with
  | some kind => leaf kind t.start t.chars.length
  | none => ofToken t

/-- Tokens are comments, or they are comments with another token behind them. -/
lemma comments_split (ts : List Token) : (∀ t ∈ ts, t.kind = .comment) ∨
    ∃ comments read rest, ts = comments ++ read :: rest ∧ (∀ c ∈ comments, c.kind = .comment) ∧
      read.kind ≠ .comment := by
  induction ts with
  | nil => exact .inl (by simp)
  | cons t ts ih =>
    by_cases ht : t.kind = .comment
    · rcases ih with h | ⟨comments, read, rest, rfl, hc, hr⟩
      · exact .inl (by simpa [ht] using h)
      · exact .inr ⟨t :: comments, read, rest, rfl, by simpa [ht] using hc, hr⟩
    · exact .inr ⟨[], t, ts, rfl, by simp, ht⟩

namespace Reading

variable {t : Terminal} {comments rest : List Token} {read : Token} {last : Nat}

lemma token?_of_comments (h : ∀ c ∈ comments, c.kind = .comment) :
    token? ⟨comments, last⟩ t = none := by
  have htake : comments.takeWhile (fun c => decide (c.kind = .comment)) = comments := by
    induction comments with
    | nil => rfl
    | cons c comments ih => simp_all
  simp [token?, htake]

lemma token?_of_split (h : ∀ c ∈ comments, c.kind = .comment) (hr : read.kind ≠ .comment) :
    token? ⟨comments ++ read :: rest, last⟩ t =
      if t.accepts read then some (comments.map Node.ofToken, read, ⟨rest, read.stop⟩)
      else none := by
  have htake : (comments ++ read :: rest).takeWhile (fun c => decide (c.kind = .comment)) =
      comments := by
    rw [List.takeWhile_append_of_pos (by simpa using h)]
    simp [hr]
  simp only [token?, htake, List.drop_left]

/-- Reading a token takes it and the comments in front of it, which become nodes. -/
theorem eq_of_token? {r s : Reading} {nodes : List Node} (h : r.token? t = some (nodes, read, s)) :
    ∃ comments, r.rest = comments ++ read :: s.rest ∧ (∀ c ∈ comments, c.kind = .comment) ∧
      read.kind ≠ .comment ∧ t.accepts read = true ∧ nodes = comments.map Node.ofToken ∧
      s.last = read.stop := by
  obtain ⟨tokens, last⟩ := r
  rcases comments_split tokens with hall | ⟨comments, x, rest, rfl, hc, hx⟩
  · rw [token?_of_comments hall] at h
    cases h
  · rw [token?_of_split hc hx] at h
    split at h
    · rename_i hacc
      cases h
      exact ⟨comments, rfl, hc, hx, hacc, rfl, rfl⟩
    · cases h

end Reading

namespace Pattern

variable {σ : Type}

/-- Whether a pattern treats what was read just before it as it should: one that takes it up
(`taking`) has it in its result, and any other starts anew. `takes` says which symbols take it up.
Nodes of comments are never made by a pattern. -/
def wellFormed (takes : σ → Bool) : Bool → Pattern σ → Bool
  | taking, empty => !taking
  | taking, token t kind? => !taking && decide t.Readable && decide (kind? ≠ some .comment)
  | taking, hidden t => !taking && decide t.Ending
  | taking, symbol s => takes s == taking
  | taking, seq p q => !taking && wellFormed takes false p && wellFormed takes false q
  | taking, alt p q => wellFormed takes taking p && wellFormed takes taking q
  | taking, many p => !taking && wellFormed takes false p
  | taking, node kind p => !taking && decide (kind ≠ .comment) && wellFormed takes false p
  | taking, around _ kind p => taking && decide (kind ≠ .comment) && wellFormed takes false p
  | taking, keep => taking
  | taking, into p q => wellFormed takes taking p && wellFormed takes true q
  | taking, chain p q => wellFormed takes taking p && wellFormed takes true q
  | taking, role _ p => wellFormed takes taking p
  | taking, ahead p => !taking && wellFormed takes false p
  | taking, absent p => !taking && wellFormed takes false p
  | taking, header p => wellFormed takes taking p
  | taking, inner p => wellFormed takes taking p
  | taking, mayBrace => !taking

/-- A relation between two readings. `Aligned` is about where they have got to, and
`Spanned r r' a a' s s'` about the nodes `a` and `a'` that they read on the ways from `r` to `s` and
from `r'` to `s'`. -/
structure Simulation where
  Aligned : Reading → Reading → Prop
  Spanned : Reading → Reading → List Node → List Node → Reading → Reading → Prop
  nil : ∀ {r r'}, Aligned r r' → Spanned r r' [] [] r r'
  append : ∀ {r r' a a' s s' b b' t t'}, Spanned r r' a a' s s' → Spanned s s' b b' t t' →
    Spanned r r' (a ++ b) (a' ++ b') t t'
  enclose : ∀ {r r' a a' s s' kind}, kind ≠ .comment → Aligned s s' → Spanned r r' a a' s s' →
    Spanned r r' (enclose kind s.last a) (enclose kind s'.last a') s s'
  labelled : ∀ role? {r r' a a' s s'}, Spanned r r' a a' s s' →
    Spanned r r' (labelled role? a) (labelled role? a') s s'
  token : ∀ {r r' t kind?}, t.Readable → kind? ≠ some .comment → Aligned r r' →
    Option.Rel (fun x y => Aligned x.2.2 y.2.2 ∧ Spanned r r'
      (x.1 ++ [Node.ofRead kind? x.2.1]) (y.1 ++ [Node.ofRead kind? y.2.1]) x.2.2 y.2.2)
      (r.token? t) (r'.token? t)
  hidden : ∀ {r r' t}, t.Ending → Aligned r r' →
    Option.Rel (fun x y => Aligned x.2.2 y.2.2 ∧ Spanned r r' x.1 y.1 x.2.2 y.2.2)
      (r.token? t) (r'.token? t)

namespace Simulation

variable (S : Simulation)

/-- What has to hold before a pattern is read at `s` and `s'` with `l` and `l'` read before. -/
def Ready (taking : Bool) (r r' : Reading) (l l' : List Node) (s s' : Reading) : Prop :=
  S.Aligned s s' ∧ match taking with
    | true => S.Spanned r r' l l' s s'
    | false => r = s ∧ r' = s'

/-- What holds of the results of both readings. -/
def Related (r r' : Reading) (x y : List Node × Reading) : Prop :=
  S.Aligned x.2 y.2 ∧ S.Spanned r r' x.1 y.1 x.2 y.2

variable {S} {taking : Bool} {r r' s s' : Reading} {l l' : List Node}

theorem ready_of_aligned (h : S.Aligned s s') : S.Ready false s s' [] [] s s' := ⟨h, rfl, rfl⟩

theorem Ready.fresh (h : S.Ready taking r r' l l' s s') : S.Ready false s s' [] [] s s' :=
  ready_of_aligned h.1

theorem Related.ready {x y : List Node × Reading} (h : S.Related r r' x y) :
    S.Ready true r r' x.1 y.1 x.2 y.2 := h

lemma rel_cases {α β : Type} {R : α → β → Prop} {x : Option α} {y : Option β}
    (h : Option.Rel R x y) :
    x = none ∧ y = none ∨ ∃ a b, x = some a ∧ y = some b ∧ R a b := by
  cases h with
  | some h => exact .inr ⟨_, _, rfl, rfl, h⟩
  | none => exact .inl ⟨rfl, rfl⟩

/-- Both readings of a pattern fail, or both succeed with related results. -/
def Kept (S : Simulation) (grammar : σ → Pattern σ) (fuel : Nat) (p : Pattern σ) (taking : Bool) :
    Prop :=
  ∀ braces ⦃r r' l l' s s'⦄, S.Ready taking r r' l l' s s' →
    Option.Rel (S.Related r r') (run grammar fuel p braces l s) (run grammar fuel p braces l' s')

/-- A pattern that takes up what was read as often as it can never fails, and both results are
related. -/
def KeptGrowing (S : Simulation) (grammar : σ → Pattern σ) (fuel : Nat) (q : Pattern σ) : Prop :=
  ∀ braces ⦃r r' l l' s s'⦄, S.Ready true r r' l l' s s' →
    Option.Rel (S.Related r r') (grow grammar fuel q braces l s) (grow grammar fuel q braces l' s')

section Constructors

variable {grammar : σ → Pattern σ} {fuel : Nat} {p q : Pattern σ}

-- Their equations are worked out here, once for all the lemmas below.
attribute [local simp] run grow

lemma kept_empty : S.Kept grammar (fuel + 1) empty false := by
  rintro braces r r' l l' _ _ ⟨hat, rfl, rfl⟩
  exact .some ⟨hat, S.nil hat⟩

lemma kept_token {t : Terminal} {kind? : Option Kind} (ht : t.Readable)
    (hkind : kind? ≠ some .comment) : S.Kept grammar (fuel + 1) (Pattern.token t kind?) false := by
  rintro braces r r' l l' _ _ ⟨hat, rfl, rfl⟩
  rcases rel_cases (S.token ht hkind hat) with ⟨h, h'⟩ | ⟨x, y, h, h', hxy⟩
  · simp only [run, h, h']
    exact .none
  · simp only [run, h, h']
    exact .some hxy

lemma kept_hidden {t : Terminal} (ht : t.Ending) :
    S.Kept grammar (fuel + 1) (Pattern.hidden t) false := by
  rintro braces r r' l l' _ _ ⟨hat, rfl, rfl⟩
  rcases rel_cases (S.hidden ht hat) with ⟨h, h'⟩ | ⟨x, y, h, h', hxy⟩
  · simp only [run, h, h']
    exact .none
  · simp only [run, h, h']
    exact .some hxy

lemma kept_keep : S.Kept grammar (fuel + 1) keep true := by
  intro braces r r' l l' s s' hs
  exact .some hs

lemma kept_mayBrace : S.Kept grammar (fuel + 1) mayBrace false := by
  rintro braces r r' l l' _ _ ⟨hat, rfl, rfl⟩
  cases braces with
  | true => exact .some ⟨hat, S.nil hat⟩
  | false => exact .none

lemma Kept.symbol {x : σ} (h : S.Kept grammar fuel (grammar x) taking) :
    S.Kept grammar (fuel + 1) (symbol x) taking := by
  intro braces r r' l l' s s' hs
  simp only [run]
  exact h braces hs

lemma Kept.seq (hp : S.Kept grammar fuel p false) (hq : S.Kept grammar fuel q false) :
    S.Kept grammar (fuel + 1) (seq p q) false := by
  rintro braces r r' l l' _ _ ⟨hat, rfl, rfl⟩
  rcases rel_cases (hp braces (ready_of_aligned hat)) with ⟨h, h'⟩ | ⟨x, y, h, h', hxy⟩
  · simp only [run, h, h']
    exact .none
  · rcases rel_cases (hq braces hxy.ready.fresh) with ⟨k, k'⟩ | ⟨z, w, k, k', hzw⟩
    · simp only [run, h, h', k, k']
      exact .none
    · simp only [run, h, h', k, k']
      exact .some ⟨hzw.1, S.append hxy.2 hzw.2⟩

lemma Kept.alt (hp : S.Kept grammar fuel p taking) (hq : S.Kept grammar fuel q taking) :
    S.Kept grammar (fuel + 1) (alt p q) taking := by
  intro braces r r' l l' s s' hs
  rcases rel_cases (hp braces hs) with ⟨h, h'⟩ | ⟨x, y, h, h', hxy⟩
  · simp only [run, h, h']
    exact hq braces hs
  · simp only [run, h, h']
    exact .some hxy

lemma Kept.many (hp : S.Kept grammar fuel p false) (hmany : S.Kept grammar fuel (many p) false) :
    S.Kept grammar (fuel + 1) (many p) false := by
  rintro braces r r' l l' _ _ ⟨hat, rfl, rfl⟩
  rcases rel_cases (hp braces (ready_of_aligned hat)) with ⟨h, h'⟩ | ⟨x, y, h, h', hxy⟩
  · simp only [run, h, h']
    exact .some ⟨hat, S.nil hat⟩
  · rcases rel_cases (hmany braces hxy.ready.fresh) with ⟨k, k'⟩ | ⟨z, w, k, k', hzw⟩
    · simp only [run, h, h', k, k']
      exact .some hxy
    · simp only [run, h, h', k, k']
      exact .some ⟨hzw.1, S.append hxy.2 hzw.2⟩

lemma Kept.node {kind : Kind} (hkind : kind ≠ .comment) (hp : S.Kept grammar fuel p false) :
    S.Kept grammar (fuel + 1) (node kind p) false := by
  rintro braces r r' l l' _ _ ⟨hat, rfl, rfl⟩
  rcases rel_cases (hp braces (ready_of_aligned hat)) with ⟨h, h'⟩ | ⟨x, y, h, h', hxy⟩
  · simp only [run, h, h']
    exact .none
  · simp only [run, h, h']
    exact .some ⟨hxy.1, S.enclose hkind hxy.1 hxy.2⟩

lemma Kept.around {role? : Option Role} {kind : Kind} (hkind : kind ≠ .comment)
    (hp : S.Kept grammar fuel p false) :
    S.Kept grammar (fuel + 1) (around role? kind p) true := by
  intro braces r r' l l' s s' hs
  rcases rel_cases (hp braces hs.fresh) with ⟨h, h'⟩ | ⟨x, y, h, h', hxy⟩
  · simp only [run, h, h']
    exact .none
  · simp only [run, h, h']
    exact .some ⟨hxy.1, S.enclose hkind hxy.1 (S.append (S.labelled role? hs.2) hxy.2)⟩

lemma Kept.into (hp : S.Kept grammar fuel p taking) (hq : S.Kept grammar fuel q true) :
    S.Kept grammar (fuel + 1) (into p q) taking := by
  intro braces r r' l l' s s' hs
  rcases rel_cases (hp braces hs) with ⟨h, h'⟩ | ⟨x, y, h, h', hxy⟩
  · simp only [run, h, h']
    exact .none
  · simp only [run, h, h']
    exact hq braces hxy.ready

lemma Kept.chain (hp : S.Kept grammar fuel p taking) (hq : S.KeptGrowing grammar fuel q) :
    S.Kept grammar (fuel + 1) (chain p q) taking := by
  intro braces r r' l l' s s' hs
  rcases rel_cases (hp braces hs) with ⟨h, h'⟩ | ⟨x, y, h, h', hxy⟩
  · simp only [run, h, h']
    exact .none
  · simp only [run, h, h']
    exact hq braces hxy.ready

lemma Kept.role {part : Role} (hp : S.Kept grammar fuel p taking) :
    S.Kept grammar (fuel + 1) (role part p) taking := by
  intro braces r r' l l' s s' hs
  rcases rel_cases (hp braces hs) with ⟨h, h'⟩ | ⟨x, y, h, h', hxy⟩
  · simp only [run, h, h']
    exact .none
  · simp only [run, h, h']
    exact .some ⟨hxy.1, S.labelled (some part) hxy.2⟩

lemma Kept.ahead (hp : S.Kept grammar fuel p false) :
    S.Kept grammar (fuel + 1) (ahead p) false := by
  rintro braces r r' l l' _ _ ⟨hat, rfl, rfl⟩
  rcases rel_cases (hp braces (ready_of_aligned hat)) with ⟨h, h'⟩ | ⟨x, y, h, h', _⟩
  · simp only [run, h, h']
    exact .none
  · simp only [run, h, h']
    exact .some ⟨hat, S.nil hat⟩

lemma Kept.absent (hp : S.Kept grammar fuel p false) :
    S.Kept grammar (fuel + 1) (absent p) false := by
  rintro braces r r' l l' _ _ ⟨hat, rfl, rfl⟩
  rcases rel_cases (hp braces (ready_of_aligned hat)) with ⟨h, h'⟩ | ⟨x, y, h, h', _⟩
  · simp only [run, h, h']
    exact .some ⟨hat, S.nil hat⟩
  · simp only [run, h, h']
    exact .none

lemma Kept.header (hp : S.Kept grammar fuel p taking) :
    S.Kept grammar (fuel + 1) (header p) taking := by
  intro braces r r' l l' s s' hs
  simp only [run]
  exact hp _ hs

lemma Kept.inner (hp : S.Kept grammar fuel p taking) :
    S.Kept grammar (fuel + 1) (inner p) taking := by
  intro braces r r' l l' s s' hs
  simp only [run]
  exact hp _ hs

lemma KeptGrowing.succ (hq : S.Kept grammar fuel q true) (hgrow : S.KeptGrowing grammar fuel q) :
    S.KeptGrowing grammar (fuel + 1) q := by
  intro braces r r' l l' s s' hs
  rcases rel_cases (hq braces hs) with ⟨h, h'⟩ | ⟨x, y, h, h', hxy⟩
  · simp only [grow, h, h']
    exact .some hs
  · simp only [grow, h, h']
    exact hgrow braces hxy.ready

end Constructors

/-- Well-formed patterns keep the relation: the induction is on the bound of the descent, for
patterns and for chains at once. -/
theorem kept_and_growing (S : Simulation) {grammar : σ → Pattern σ} {takes : σ → Bool}
    (hg : ∀ s, (grammar s).wellFormed takes (takes s) = true) (fuel : Nat) :
    (∀ p taking, p.wellFormed takes taking = true → S.Kept grammar fuel p taking) ∧
      ∀ q, q.wellFormed takes true = true → S.KeptGrowing grammar fuel q := by
  induction fuel with
  | zero => exact ⟨fun _ _ _ _ _ _ _ _ _ _ _ => .none, fun _ _ _ _ _ _ _ _ _ _ => .none⟩
  | succ fuel ih =>
    obtain ⟨hrun, hgrow⟩ := ih
    refine ⟨fun p taking hp => ?_, fun q hq => (hgrow q hq).succ (hrun q true hq)⟩
    cases p with
    | empty =>
      obtain rfl : taking = false := by simpa [wellFormed] using hp
      exact kept_empty
    | token t kind? =>
      simp only [wellFormed, Bool.and_eq_true, decide_eq_true_eq, Bool.not_eq_true'] at hp
      obtain ⟨⟨rfl, ht⟩, hkind⟩ := hp
      exact kept_token ht hkind
    | hidden t =>
      simp only [wellFormed, Bool.and_eq_true, decide_eq_true_eq, Bool.not_eq_true'] at hp
      obtain ⟨rfl, ht⟩ := hp
      exact kept_hidden ht
    | symbol x =>
      obtain rfl : takes x = taking := by simpa [wellFormed] using hp
      exact (hrun _ _ (hg x)).symbol
    | seq p q =>
      simp only [wellFormed, Bool.and_eq_true, Bool.not_eq_true'] at hp
      obtain ⟨⟨rfl, hp⟩, hq⟩ := hp
      exact (hrun p false hp).seq (hrun q false hq)
    | alt p q =>
      simp only [wellFormed, Bool.and_eq_true] at hp
      exact (hrun p taking hp.1).alt (hrun q taking hp.2)
    | many p =>
      have hmany := hrun (many p) taking hp
      simp only [wellFormed, Bool.and_eq_true, Bool.not_eq_true'] at hp
      obtain ⟨rfl, hp⟩ := hp
      exact (hrun p false hp).many hmany
    | node kind p =>
      simp only [wellFormed, Bool.and_eq_true, decide_eq_true_eq, Bool.not_eq_true'] at hp
      obtain ⟨⟨rfl, hkind⟩, hp⟩ := hp
      exact (hrun p false hp).node hkind
    | around role? kind p =>
      simp only [wellFormed, Bool.and_eq_true, decide_eq_true_eq] at hp
      obtain ⟨⟨rfl, hkind⟩, hp⟩ := hp
      exact (hrun p false hp).around hkind
    | keep =>
      obtain rfl : taking = true := by simpa [wellFormed] using hp
      exact kept_keep
    | into p q =>
      simp only [wellFormed, Bool.and_eq_true] at hp
      exact (hrun p taking hp.1).into (hrun q true hp.2)
    | chain p q =>
      simp only [wellFormed, Bool.and_eq_true] at hp
      exact (hrun p taking hp.1).chain (hgrow q hp.2)
    | role part p => exact (hrun p taking hp).role
    | ahead p =>
      simp only [wellFormed, Bool.and_eq_true, Bool.not_eq_true'] at hp
      obtain ⟨rfl, hp⟩ := hp
      exact (hrun p false hp).ahead
    | absent p =>
      simp only [wellFormed, Bool.and_eq_true, Bool.not_eq_true'] at hp
      obtain ⟨rfl, hp⟩ := hp
      exact (hrun p false hp).absent
    | header p => exact (hrun p taking hp).header
    | inner p => exact (hrun p taking hp).inner
    | mayBrace =>
      obtain rfl : taking = false := by simpa [wellFormed] using hp
      exact kept_mayBrace

/-- What is read afresh from aligned places is related. -/
theorem run_related (S : Simulation) {grammar : σ → Pattern σ} {takes : σ → Bool}
    (hg : ∀ s, (grammar s).wellFormed takes (takes s) = true) (fuel : Nat) {p : Pattern σ}
    (hp : p.wellFormed takes false = true) (braces : Bool) (hs : S.Aligned s s') :
    Option.Rel (S.Related s s') (run grammar fuel p braces l s)
      (run grammar fuel p braces l' s') :=
  (S.kept_and_growing hg fuel).1 p false hp braces ⟨hs, rfl, rfl⟩

end Simulation

/-- A property of one reading: `At` is about where it has got to, and `Over r a s` about the nodes
`a` that it reads on the way from `r` to `s`. -/
structure Invariant where
  At : Reading → Prop
  Over : Reading → List Node → Reading → Prop
  nil : ∀ {r}, At r → Over r [] r
  append : ∀ {r a s b t}, Over r a s → Over s b t → Over r (a ++ b) t
  enclose : ∀ {r a s kind}, kind ≠ .comment → At s → Over r a s →
    Over r (enclose kind s.last a) s
  labelled : ∀ role? {r a s}, Over r a s → Over r (labelled role? a) s
  token : ∀ {r t kind? comments read s}, t.Readable → kind? ≠ some .comment → At r →
    r.token? t = some (comments, read, s) →
    At s ∧ Over r (comments ++ [Node.ofRead kind? read]) s
  hidden : ∀ {r t comments read s}, t.Ending → At r →
    r.token? t = some (comments, read, s) → At s ∧ Over r comments s

namespace Invariant

/-- A reading keeps an invariant where it is related to itself. -/
def simulation (I : Invariant) : Simulation where
  Aligned r r' := r = r' ∧ I.At r
  Spanned r r' a a' s s' := r = r' ∧ a = a' ∧ s = s' ∧ I.Over r a s
  nil := by
    rintro r _ ⟨rfl, h⟩
    exact ⟨rfl, rfl, rfl, I.nil h⟩
  append := by
    rintro r _ a _ s _ b _ t _ ⟨rfl, rfl, rfl, h⟩ ⟨_, rfl, rfl, h'⟩
    exact ⟨rfl, rfl, rfl, I.append h h'⟩
  enclose := by
    rintro r _ a _ s _ kind hkind ⟨_, hat⟩ ⟨rfl, rfl, rfl, h⟩
    exact ⟨rfl, rfl, rfl, I.enclose hkind hat h⟩
  labelled := by
    rintro role? r _ a _ s _ ⟨rfl, rfl, rfl, h⟩
    exact ⟨rfl, rfl, rfl, I.labelled role? h⟩
  token := by
    rintro r _ t kind? ht hkind ⟨rfl, hat⟩
    cases hr : r.token? t with
    | none => exact .none
    | some x =>
      obtain ⟨hs, ho⟩ := I.token ht hkind hat hr
      exact .some ⟨⟨rfl, hs⟩, rfl, rfl, rfl, ho⟩
  hidden := by
    rintro r _ t ht ⟨rfl, hat⟩
    cases hr : r.token? t with
    | none => exact .none
    | some x =>
      obtain ⟨hs, ho⟩ := I.hidden ht hat hr
      exact .some ⟨⟨rfl, hs⟩, rfl, rfl, rfl, ho⟩

/-- What holds of every token read holds of everything read. -/
theorem run (I : Invariant) {grammar : σ → Pattern σ} {takes : σ → Bool}
    (hg : ∀ s, (grammar s).wellFormed takes (takes s) = true) {fuel : Nat} {p : Pattern σ}
    {braces : Bool} {left a : List Node} {r s : Reading} (hp : p.wellFormed takes false = true)
    (hr : I.At r) (h : Pattern.run grammar fuel p braces left r = some (a, s)) :
    I.At s ∧ I.Over r a s := by
  have hrel : Option.Rel (I.simulation.Related r r) (Pattern.run grammar fuel p braces left r)
      (Pattern.run grammar fuel p braces left r) :=
    I.simulation.run_related hg fuel hp braces ⟨rfl, hr⟩
  rw [h] at hrel
  cases hrel with
  | some hrel => exact ⟨hrel.1.2, hrel.2.2.2.2⟩

end Invariant
end Pattern

namespace Grammar

/-- Suffixes go on with an operand; all other symbols start anew. -/
def takes : Symbol → Bool
  | .suffix => true
  | _ => false

theorem rule_binary_wellFormed (level : Nat) :
    (rule (.binary level)).wellFormed takes (takes (.binary level)) = true := by
  unfold rule
  match level with
  | 0 | 1 | 2 | 3 | 4 => decide +kernel
  | n + 5 =>
    have h : ¬ n + 5 < 5 := by omega
    simp only [if_neg h]
    rfl

theorem rule_wellFormed (s : Symbol) : (rule s).wellFormed takes (takes s) = true := by
  cases s
  case binary level => exact rule_binary_wellFormed level
  all_goals decide +kernel

end Grammar

/-- The nodes of a file are what its symbol reads, if nothing but comments is left, and these. -/
theorem fileNodes?_eq_some_iff {tokens : List Token} {nodes : List Node} :
    fileNodes? tokens = some nodes ↔ ∃ a r,
      Pattern.run Grammar.rule (depthBound tokens) (.symbol .sourceFile) true [] ⟨tokens, 0⟩ =
        some (a, r) ∧
      (∀ t ∈ r.rest, t.kind = .comment) ∧ a ++ r.rest.map Node.ofToken = nodes := by
  unfold fileNodes?
  rcases Pattern.run _ _ _ _ _ _ with _ | ⟨a, r⟩
  · simp
  · simp only [Option.ite_none_right_eq_some, List.all_eq_true, decide_eq_true_eq,
      Option.some.injEq, Prod.mk.injEq]
    constructor
    · exact fun h => ⟨a, r, ⟨rfl, rfl⟩, h⟩
    · rintro ⟨_, _, ⟨rfl, rfl⟩, h⟩
      exact h
end Mend.Go
