import Mathlib.Tactic.Lemma
import Mathlib.Tactic.SplitIfs
import Mend.Files.Disk

/-! Where paths lead when there are links. A link stands for the pieces of its text, which are gone
along before the others; following links in this way is a judgement of its own, and walking decides
it as long as the links are not too many. -/
namespace Mend

namespace Disk

variable {d : Disk} {p q q' : Place} {path piece text : String} {rest pieces : List String}
  {m n : Nat}

/-- Going along some pieces of a path from `p`, one comes to `q` through `n` links. -/
inductive Reaches (d : Disk) : Place → List String → Nat → Place → Prop
  | done (p : Place) : Reaches d p [] 0 p
  | step {p q : Place} {piece : String} {rest : List String} {n : Nat} (hopens : d.opens p)
      (hlink : d.link? p piece = none) (hrest : Reaches d (p.step piece) rest n q) :
      Reaches d p (piece :: rest) n q
  | link {p q : Place} {piece text : String} {rest : List String} {n : Nat} (hopens : d.opens p)
      (hlink : d.link? p piece = some text) (htext : text ≠ "")
      (hrest : Reaches d (if Path.isAbsolute text then [] else p) (Path.pieces text ++ rest) n q) :
      Reaches d p (piece :: rest) (n + 1) q

lemma reaches_nil : d.Reaches p [] n q ↔ n = 0 ∧ q = p := by
  constructor
  · rintro ⟨⟩
    exact ⟨rfl, rfl⟩
  · rintro ⟨rfl, rfl⟩
    exact .done q

lemma reaches_step (hopens : d.opens p) (hlink : d.link? p piece = none) :
    d.Reaches p (piece :: rest) n q ↔ d.Reaches (p.step piece) rest n q := by
  constructor
  · rintro (_ | ⟨-, -, hrest⟩ | ⟨-, hlink', -, -⟩)
    · exact hrest
    · cases hlink.symm.trans hlink'
  · exact .step hopens hlink

lemma reaches_link (hopens : d.opens p) (hlink : d.link? p piece = some text) (htext : text ≠ "") :
    d.Reaches p (piece :: rest) n q ↔ ∃ k, n = k + 1 ∧
      d.Reaches (if Path.isAbsolute text then [] else p) (Path.pieces text ++ rest) k q := by
  constructor
  · rintro (_ | ⟨-, hlink', -⟩ | ⟨-, hlink', -, hrest⟩)
    · cases hlink.symm.trans hlink'
    · cases hlink.symm.trans hlink'
      exact ⟨_, rfl, hrest⟩
  · rintro ⟨k, rfl, hrest⟩
    exact .link hopens hlink htext hrest

/-- Nothing is found below what is no directory, or one that may not be looked into. -/
lemma Reaches.opens (h : d.Reaches p (piece :: rest) n q) : d.opens p := by
  cases h <;> assumption

lemma Reaches.text_ne (h : d.Reaches p (piece :: rest) n q) (hlink : d.link? p piece = some text) :
    text ≠ "" := by
  rcases h with _ | ⟨-, hlink', -⟩ | ⟨-, hlink', htext, -⟩
  · cases hlink.symm.trans hlink'
  · cases hlink.symm.trans hlink'
    exact htext

/-- The induction is on the pieces; what comes behind a link is up to `follow`. -/
lemma walkWith_eq_some_iff {follow : Place → List String → Option Place}
    (hfollow : ∀ p pieces, follow p pieces = some q ↔ ∃ n < m, d.Reaches p pieces n q) :
    d.walkWith follow p pieces = some q ↔ ∃ n ≤ m, d.Reaches p pieces n q := by
  induction pieces generalizing p with
  | nil =>
    rw [walkWith, Option.some.injEq]
    simp only [reaches_nil]
    constructor
    · rintro rfl
      exact ⟨0, Nat.zero_le m, rfl, rfl⟩
    · rintro ⟨_, -, -, rfl⟩
      rfl
  | cons piece rest ih =>
    rw [walkWith]
    by_cases hopens : d.opens p
    · rw [if_pos hopens]
      cases hlink : d.link? p piece with
      | none => simp only [ih, reaches_step hopens hlink]
      | some text =>
        dsimp only
        by_cases htext : text = ""
        · have hnever : ∀ n, ¬ d.Reaches p (piece :: rest) n q := fun n h => h.text_ne hlink htext
          simp [htext, hnever]
        · rw [if_neg htext, hfollow]
          simp only [reaches_link hopens hlink htext]
          constructor
          · rintro ⟨k, hk, hrest⟩
            exact ⟨k + 1, hk, k, rfl, hrest⟩
          · rintro ⟨_, hk, k, rfl, hrest⟩
            exact ⟨k, hk, hrest⟩
    · have hnever : ∀ n, ¬ d.Reaches p (piece :: rest) n q := fun n h => hopens h.opens
      simp [hopens, hnever]

/-- The induction is on the links that one may go through. -/
theorem walk?_eq_some_iff : d.walk? m p pieces = some q ↔ ∃ n ≤ m, d.Reaches p pieces n q := by
  induction m generalizing p pieces with
  | zero => exact walkWith_eq_some_iff (by simp)
  | succ m ih => exact walkWith_eq_some_iff fun p pieces => by simp only [ih, Nat.lt_succ_iff]

/-- However many links there are on the way, it ends at one place. -/
theorem Reaches.unique (h : d.Reaches p pieces m q) (h' : d.Reaches p pieces n q') : q = q' := by
  have hq : d.walk? (max m n) p pieces = some q :=
    walk?_eq_some_iff.2 ⟨m, Nat.le_max_left m n, h⟩
  have hq' : d.walk? (max m n) p pieces = some q' :=
    walk?_eq_some_iff.2 ⟨n, Nat.le_max_right m n, h'⟩
  exact Option.some.inj (hq.symm.trans hq')

/-- A path names what is at a place: it leads there, through few enough links, and there is
something. -/
structure Names (d : Disk) (path : String) (p : Place) : Prop where
  zeroByte : '\x00' ∉ path.toList
  nonempty : path ≠ ""
  reaches : ∃ n ≤ maxLinks, d.Reaches (d.start path) (Path.pieces path) n p
  present : d.node? p ≠ none

lemma place?_eq_some_iff :
    d.place? path = some p ↔ '\x00' ∉ path.toList ∧ path ≠ "" ∧
      ∃ n ≤ maxLinks, d.Reaches (d.start path) (Path.pieces path) n p := by
  rw [place?]
  split_ifs with hpath
  · rcases Bool.or_eq_true_iff.1 hpath with hzero | hempty
    · simp [of_decide_eq_true hzero]
    · simp [of_decide_eq_true hempty]
  · obtain ⟨hzero, hempty⟩ : '\x00' ∉ path.toList ∧ path ≠ "" := by simpa using hpath
    simp [walk?_eq_some_iff, hzero, hempty]

theorem existing?_eq_some_iff : d.existing? path = some p ↔ d.Names path p := by
  rw [existing?, Option.filter_eq_some_iff, place?_eq_some_iff, Option.isSome_iff_ne_none]
  constructor
  · rintro ⟨⟨hzero, hempty, hreaches⟩, hpresent⟩
    exact ⟨hzero, hempty, hreaches, hpresent⟩
  · intro h
    exact ⟨⟨h.zeroByte, h.nonempty, h.reaches⟩, h.present⟩

instance (d : Disk) (path : String) (p : Place) : Decidable (d.Names path p) :=
  decidable_of_iff (d.existing? path = some p) existing?_eq_some_iff

/-- Dots, the way back up and links do not matter. -/
example : ({
    nodes := [(["a"], .directory), (["a", "f"], .file [] 0)]
    here := ["a"]
    links := [(["b"], "../a"), (["a", "g"], "/b/./f")] } : Disk).Names "../a/./g" ["a", "f"] := by
  decide +kernel

theorem Names.place? (h : d.Names path p) : d.place? path = some p :=
  place?_eq_some_iff.2 ⟨h.zeroByte, h.nonempty, h.reaches⟩

/-- The induction is on the pieces. -/
lemma walkWith_eq_walk (hlinks : d.links = []) (hshown : ∀ p, d.limits.hides d.toFiles p = false)
    (follow : Place → List String → Option Place) (p : Place) (pieces : List String) :
    d.walkWith follow p pieces = (d.walk p pieces).toOption := by
  induction pieces generalizing p with
  | nil => rfl
  | cons piece rest ih =>
    have hlink : d.link? p piece = none := by simp [link?, hlinks]
    have hwalk : d.walk p (piece :: rest) = (d.enter p piece).bind (d.walk · rest) := rfl
    rw [walkWith, hlink, hwalk]
    rcases hnode : d.node? p with _ | ⟨content, mode⟩ | _
    · simp [opens, Files.isDirectory, Files.enter, hnode, Except.bind, Except.toOption]
    · simp [opens, Files.isDirectory, Files.enter, hnode, Except.bind, Except.toOption]
    · simp [opens, Files.isDirectory, Files.enter, hnode, hshown, Except.bind, ih]

/-- Where there are no links and nothing is hidden, a path leads to the place that it names. -/
theorem place?_eq_place (hlinks : d.links = []) (hshown : ∀ p, d.limits.hides d.toFiles p = false)
    (path : String) : d.place? path = (d.place path).toOption := by
  rw [place?, Files.place]
  by_cases hzero : '\x00' ∈ path.toList
  · simp [hzero, Except.toOption]
  by_cases hempty : path = ""
  · simp [hempty, Except.toOption]
  · simp [hzero, hempty, maxLinks, walk?, walkWith_eq_walk hlinks hshown]

end Disk
end Mend
