import Mend.Go.Parse
import Mend.Proofs.Go.Reading

/-! How patterns may read, the bound of the descent left aside. Everything that is read is read in
one of these ways, so what is shown of all of them by induction holds of every tree. -/
namespace Mend.Go
namespace Pattern

variable {σ : Type}

/-- The nodes that a pattern may read on the way from one place to another, with `left` read just
before. Which of two alternatives applies, and how often something is repeated, is left open. -/
inductive Reads (grammar : σ → Pattern σ) :
    Pattern σ → List Node → Reading → List Node → Reading → Prop
  | empty {left r} : Reads grammar empty left r [] r
  | token {t kind? left r comments read s} (h : r.token? t = some (comments, read, s)) :
      Reads grammar (token t kind?) left r (comments ++ [Node.ofRead kind? read]) s
  | hidden {t left r comments read s} (h : r.token? t = some (comments, read, s)) :
      Reads grammar (hidden t) left r comments s
  | symbol {x left r a s} (h : Reads grammar (grammar x) left r a s) :
      Reads grammar (symbol x) left r a s
  | seq {p q left r a s b t} (hp : Reads grammar p [] r a s) (hq : Reads grammar q [] s b t) :
      Reads grammar (seq p q) left r (a ++ b) t
  | altLeft {p q left r a s} (hp : Reads grammar p left r a s) :
      Reads grammar (alt p q) left r a s
  | altRight {p q left r a s} (hq : Reads grammar q left r a s) :
      Reads grammar (alt p q) left r a s
  | manyNil {p left r} : Reads grammar (many p) left r [] r
  | manyCons {p left r a s b t} (hp : Reads grammar p [] r a s)
      (hmany : Reads grammar (many p) [] s b t) : Reads grammar (many p) left r (a ++ b) t
  | node {kind p left r a s} (hp : Reads grammar p [] r a s) :
      Reads grammar (node kind p) left r (enclose kind s.last a) s
  | around {role? kind p left r a s} (hp : Reads grammar p [] r a s) :
      Reads grammar (around role? kind p) left r
        (enclose kind s.last (labelled role? left ++ a)) s
  | keep {left r} : Reads grammar keep left r left r
  | into {p q left r a s b t} (hp : Reads grammar p left r a s) (hq : Reads grammar q a s b t) :
      Reads grammar (into p q) left r b t
  | chainStop {p q left r a s} (hp : Reads grammar p left r a s) :
      Reads grammar (chain p q) left r a s
  | chainMore {p q left r a s b t} (hchain : Reads grammar (chain p q) left r a s)
      (hq : Reads grammar q a s b t) : Reads grammar (chain p q) left r b t
  | role {part p left r a s} (hp : Reads grammar p left r a s) :
      Reads grammar (role part p) left r (labelled part a) s
  | ahead {p left r} : Reads grammar (ahead p) left r [] r
  | absent {p left r} : Reads grammar (absent p) left r [] r
  | header {p left r a s} (hp : Reads grammar p left r a s) :
      Reads grammar (header p) left r a s
  | inner {p left r a s} (hp : Reads grammar p left r a s) : Reads grammar (inner p) left r a s
  | mayBrace {left r} : Reads grammar mayBrace left r [] r

/-- What is read with that fuel is read in one of the ways. A chain takes up what it has so far, so
growing starts from any part of a chain. -/
structure Traced (grammar : σ → Pattern σ) (fuel : Nat) : Prop where
  run : ∀ {p braces left r a s}, Pattern.run grammar fuel p braces left r = some (a, s) →
    Reads grammar p left r a s
  grow : ∀ {p q braces left o so r a s}, Reads grammar (chain p q) left o so r →
    Pattern.grow grammar fuel q braces so r = some (a, s) → Reads grammar (chain p q) left o a s

namespace Traced

variable {grammar : σ → Pattern σ} {fuel : Nat} {p q : Pattern σ} {braces : Bool}
  {left a : List Node} {r s : Reading}

lemma run_succ (ih : Traced grammar fuel)
    (h : Pattern.run grammar (fuel + 1) p braces left r = some (a, s)) :
    Reads grammar p left r a s := by
  cases p with
  | empty =>
    cases h
    exact .empty
  | token t kind? =>
    simp only [Pattern.run] at h
    split at h
    · rename_i comments read r' hread
      cases h
      exact .token hread
    · cases h
  | hidden t =>
    simp only [Pattern.run] at h
    split at h
    · rename_i comments read r' hread
      cases h
      exact .hidden hread
    · cases h
  | symbol x => exact .symbol (ih.run h)
  | seq p q =>
    simp only [Pattern.run] at h
    split at h
    · rename_i hp
      split at h
      · rename_i hq
        cases h
        exact .seq (ih.run hp) (ih.run hq)
      · cases h
    · cases h
  | alt p q =>
    simp only [Pattern.run] at h
    split at h
    · rename_i hp
      cases h
      exact .altLeft (ih.run hp)
    · exact .altRight (ih.run h)
  | many p =>
    simp only [Pattern.run] at h
    split at h
    · rename_i hp
      split at h
      · rename_i hmany
        cases h
        exact .manyCons (ih.run hp) (ih.run hmany)
      · cases h
        simpa using Reads.manyCons (ih.run hp) .manyNil
    · cases h
      exact .manyNil
  | node kind p =>
    simp only [Pattern.run] at h
    split at h
    · rename_i hp
      cases h
      exact .node (ih.run hp)
    · cases h
  | around role? kind p =>
    simp only [Pattern.run] at h
    split at h
    · rename_i hp
      cases h
      exact .around (ih.run hp)
    · cases h
  | keep =>
    cases h
    exact .keep
  | into p q =>
    simp only [Pattern.run] at h
    split at h
    · rename_i hp
      exact .into (ih.run hp) (ih.run h)
    · cases h
  | chain p q =>
    simp only [Pattern.run] at h
    split at h
    · rename_i hp
      exact ih.grow (.chainStop (ih.run hp)) h
    · cases h
  | role part p =>
    simp only [Pattern.run] at h
    split at h
    · rename_i hp
      cases h
      exact .role (ih.run hp)
    · cases h
  | ahead p =>
    simp only [Pattern.run] at h
    split at h
    · cases h
      exact .ahead
    · cases h
  | absent p =>
    simp only [Pattern.run] at h
    split at h
    · cases h
    · cases h
      exact .absent
  | header p => exact .header (ih.run h)
  | inner p => exact .inner (ih.run h)
  | mayBrace =>
    simp only [Pattern.run] at h
    split at h
    · cases h
      exact .mayBrace
    · cases h

lemma grow_succ (ih : Traced grammar fuel) {o : Reading} {so : List Node}
    (hso : Reads grammar (chain p q) left o so r)
    (h : Pattern.grow grammar (fuel + 1) q braces so r = some (a, s)) :
    Reads grammar (chain p q) left o a s := by
  simp only [Pattern.grow] at h
  split at h
  · rename_i hq
    exact ih.grow (.chainMore hso (ih.run hq)) h
  · cases h
    exact hso

end Traced

theorem traced (grammar : σ → Pattern σ) (fuel : Nat) : Traced grammar fuel := by
  induction fuel with
  | zero => exact ⟨nofun, fun _ => nofun⟩
  | succ fuel ih => exact ⟨ih.run_succ, ih.grow_succ⟩

theorem reads_of_run {grammar : σ → Pattern σ} {fuel : Nat} {p : Pattern σ} {braces : Bool}
    {left a : List Node} {r s : Reading} (h : run grammar fuel p braces left r = some (a, s)) :
    Reads grammar p left r a s :=
  (traced grammar fuel).run h

end Pattern

/-- The tree of a text without errors is what its tokens are read as, with the comments behind. -/
theorem exists_reads {text : List Char} (hvalid : (parse text).hasErrors = false) :
    ∃ start a s, Pattern.Reads Grammar.rule (Grammar.rule .sourceFile) [] ⟨tokenize text, 0⟩ a s ∧
      (∀ t ∈ s.rest, t.kind = .comment) ∧
      (parse text).root =
        .mk none .sourceFile ⟨start, text.length⟩ (a ++ s.rest.map Node.ofToken) := by
  unfold parse at hvalid ⊢
  simp only at hvalid ⊢
  split at hvalid
  · rename_i nodes hnodes
    obtain ⟨a, s, hrun, hrest, rfl⟩ := fileNodes?_eq_some_iff.1 hnodes
    cases Pattern.reads_of_run hrun with
    | symbol h => exact ⟨_, a, s, h, hrest, rfl⟩
  · cases hvalid

namespace Grammar

/-- The symbols, but for the levels that no binary operator has. -/
def symbols : List Symbol := [
  .sourceFile, .topLevelDeclaration, .importSpec, .constSpec, .varSpec, .typeSpec, .typeParameters,
  .parameters, .parameter, .result, .type, .simpleType, .literalType, .typeName, .typeArguments,
  .typeElem, .fieldDeclaration, .interfaceElem, .block, .statement, .declaration, .simpleStatement,
  .ifStatement, .forStatement, .switchStatement, .selectStatement, .statementList, .clauseBody,
  .expression, .expressionList, .binary 0, .binary 1, .binary 2, .binary 3, .binary 4, .binary 5,
  .unary, .primary, .operand, .suffix, .arguments, .literalValue, .literalElement]

lemma mem_symbols (x : Symbol) : x ∈ symbols ∨ ∃ n, x = .binary (n + 5) := by
  cases x
  case binary level =>
    match level with
    | 0 | 1 | 2 | 3 | 4 => exact .inl (by decide)
    | n + 5 => exact .inr ⟨n, rfl⟩
  all_goals exact .inl (by decide)

lemma rule_binary (n : Nat) : rule (.binary (n + 5)) = rule (.binary 5) := by
  unfold rule
  simp

lemma exists_symbol (x : Symbol) : ∃ y ∈ symbols, rule y = rule x := by
  rcases mem_symbols x with hx | ⟨n, rfl⟩
  · exact ⟨x, hx, rfl⟩
  · exact ⟨.binary 5, by decide, (rule_binary n).symm⟩

end Grammar
end Mend.Go
