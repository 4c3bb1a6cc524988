import Mend.Proofs.Go.Reads

/-! What a pattern may read, tokens and the bound of the descent left aside. Everything that is read
is yielded, so what is shown of all yields by induction on them holds of every tree. -/
namespace Mend.Go.Pattern

variable {σ : Type}

/-- The nodes that a pattern may read with `left` read just before. Which of two alternatives
applies, and how often something is repeated, is left open. -/
inductive Yields (grammar : σ → Pattern σ) : Pattern σ → List Node → List Node → Prop
  | empty {left} : Yields grammar empty left []
  | token {t kind? left} {comments : List Token} {read : Token}
      (hc : ∀ c ∈ comments, c.kind = .comment) (hr : t.accepts read = true) :
      Yields grammar (token t kind?) left
        (comments.map Node.ofToken ++ [Node.ofRead kind? read])
  | hidden {t left} {comments : List Token} (hc : ∀ c ∈ comments, c.kind = .comment) :
      Yields grammar (hidden t) left (comments.map Node.ofToken)
  | symbol {s left a} (h : Yields grammar (grammar s) left a) : Yields grammar (symbol s) left a
  | seq {p q left a b} (hp : Yields grammar p [] a) (hq : Yields grammar q [] b) :
      Yields grammar (seq p q) left (a ++ b)
  | altLeft {p q left a} (hp : Yields grammar p left a) : Yields grammar (alt p q) left a
  | altRight {p q left a} (hq : Yields grammar q left a) : Yields grammar (alt p q) left a
  | manyNil {p left} : Yields grammar (many p) left []
  | manyCons {p left a b} (hp : Yields grammar p [] a) (hmany : Yields grammar (many p) [] b) :
      Yields grammar (many p) left (a ++ b)
  | node {kind p left a} (stop : Nat) (hp : Yields grammar p [] a) :
      Yields grammar (node kind p) left (enclose kind stop a)
  | around {role? kind p left a} (stop : Nat) (hp : Yields grammar p [] a) :
      Yields grammar (around role? kind p) left (enclose kind stop (labelled role? left ++ a))
  | keep {left} : Yields grammar keep left left
  | into {p q left a b} (hp : Yields grammar p left a) (hq : Yields grammar q a b) :
      Yields grammar (into p q) left b
  | chainStop {p q left a} (hp : Yields grammar p left a) : Yields grammar (chain p q) left a
  | chainMore {p q left a b} (hchain : Yields grammar (chain p q) left a)
      (hq : Yields grammar q a b) : Yields grammar (chain p q) left b
  | role {part p left a} (hp : Yields grammar p left a) :
      Yields grammar (role part p) left (labelled part a)
  | ahead {p left} : Yields grammar (ahead p) left []
  | absent {p left} : Yields grammar (absent p) left []
  | header {p left a} (hp : Yields grammar p left a) : Yields grammar (header p) left a
  | inner {p left a} (hp : Yields grammar p left a) : Yields grammar (inner p) left a
  | mayBrace {left} : Yields grammar mayBrace left []

/-- What is read is yielded. -/
theorem Reads.yields {grammar : σ → Pattern σ} {p : Pattern σ} {left a : List Node}
    {r s : Reading} (h : Reads grammar p left r a s) : Yields grammar p left a := by
  induction h with
  | token h =>
    obtain ⟨comments, _, hc, _, hacc, rfl, _⟩ := Reading.eq_of_token? h
    exact .token hc hacc
  | hidden h =>
    obtain ⟨comments, _, hc, _, _, rfl, _⟩ := Reading.eq_of_token? h
    exact .hidden hc
  | empty => exact .empty
  | symbol _ ih => exact .symbol ih
  | seq _ _ ihp ihq => exact .seq ihp ihq
  | altLeft _ ih => exact .altLeft ih
  | altRight _ ih => exact .altRight ih
  | manyNil => exact .manyNil
  | manyCons _ _ ihp ihmany => exact .manyCons ihp ihmany
  | node _ ih => exact .node _ ih
  | around _ ih => exact .around _ ih
  | keep => exact .keep
  | into _ _ ihp ihq => exact .into ihp ihq
  | chainStop _ ih => exact .chainStop ih
  | chainMore _ _ ihchain ihq => exact .chainMore ihchain ihq
  | role _ ih => exact .role ih
  | ahead => exact .ahead
  | absent => exact .absent
  | header _ ih => exact .header ih
  | inner _ ih => exact .inner ih
  | mayBrace => exact .mayBrace

end Mend.Go.Pattern
