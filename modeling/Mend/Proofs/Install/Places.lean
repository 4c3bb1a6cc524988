import Mathlib.Tactic.Lemma
import Mathlib.Tactic.SplitIfs
import Mend.Files.Store

/-! What paths mean and how files change, told by what is at each place. No change takes a directory
away, so a path that names a place goes on naming it. -/
namespace Mend

/-- The places that some pieces of a path lead through. -/
def Place.stops : Place → List String → List Place
  | _, [] => []
  | p, piece :: rest => p.step piece :: stops (p.step piece) rest

lemma Place.step_name {p : Place} {piece : String} (h : piece ≠ "") (h' : piece ≠ ".")
    (h'' : piece ≠ "..") : p.step piece = p ++ [piece] := by
  simp [step, h, h', h'']

namespace Files

variable {fs fs' fs'' : Files} {p q : Place} {path : String}

/-- The place that a path leads to, whatever there is on the way. -/
def reach (fs : Files) (path : String) : Place :=
  (Path.pieces path).foldl Place.step (fs.start path)

/-- The places on the way to the directory that a path is in. -/
def wayTo (fs : Files) (path : String) : List Place :=
  (fs.start path).stops (Path.parent path)

lemma start_congr (h : fs'.here = fs.here) : fs'.start path = fs.start path := by
  simp [start, h]

lemma reach_congr (h : fs'.here = fs.here) : fs'.reach path = fs.reach path := by
  rw [reach, start_congr h, ← reach]

lemma wayTo_congr (h : fs'.here = fs.here) : fs'.wayTo path = fs.wayTo path := by
  rw [wayTo, start_congr h, ← wayTo]

/-- The last piece of a text ends as the text does. -/
lemma getLast?_splitAt {c a : Char} {cs : List Char} (h : cs.getLast? = some a) (ha : a ≠ c) :
    ∃ front s, Path.splitAt c cs = front ++ [s] ∧ s.getLast? = some a := by
  induction cs with
  | nil => simp at h
  | cons b cs ih =>
    rw [Path.splitAt]
    rcases cs with _ | ⟨b', cs⟩
    · obtain rfl : b = a := by simpa using h
      exact ⟨[], [b], by simp [Path.splitAt, ha], rfl⟩
    obtain ⟨front, s, hsplit, hs⟩ := ih (by simpa using h)
    rw [hsplit]
    split_ifs
    · exact ⟨[] :: front, s, rfl, hs⟩
    · cases front with
      | nil => exact ⟨[], b :: s, rfl, by simp [List.getLast?_cons, hs]⟩
      | cons first front => exact ⟨(b :: first) :: front, s, rfl, hs⟩

/-- The name at the end of a path ends as the path does, unless that ends in a slash or a dot. -/
theorem exists_reach (fs : Files) {c : Char} (h : path.toList.getLast? = some c) (hslash : c ≠ '/')
    (hdot : c ≠ '.') :
    ∃ front name, fs.reach path = front ++ [name] ∧ name.toList.getLast? = some c := by
  obtain ⟨front, s, hsplit, hs⟩ := getLast?_splitAt h hslash
  have hne : ∀ text : String, text.toList.getLast? ≠ some c → String.ofList s ≠ text := by
    rintro _ htext rfl
    exact htext (by simpa using hs)
  refine ⟨(front.map String.ofList).foldl Place.step (fs.start path), String.ofList s, ?_,
    by simpa using hs⟩
  rw [reach, Path.pieces, hsplit, List.map_append, List.foldl_append, List.map_singleton,
    List.foldl_cons, List.foldl_nil]
  exact Place.step_name (hne _ (by simp)) (hne _ (by simpa [eq_comm] using hdot))
    (hne _ (by simpa [eq_comm] using hdot))

theorem enter_eq_ok_iff {piece : String} :
    fs.enter p piece = .ok q ↔ fs.node? p = some .directory ∧ q = p.step piece := by
  rcases h : fs.node? p with _ | ⟨c, m⟩ | _
  · simp [enter, h]
  · simp [enter, h]
  · simp only [enter, h, true_and, Except.ok.injEq]
    exact eq_comm

/-- The places that a path leads through are directories, and it leads to the end of its pieces. -/
theorem walk_eq_ok_iff {pieces : List String} :
    fs.walk p pieces = .ok q ↔
      (pieces ≠ [] → fs.node? p = some .directory) ∧
        (∀ s ∈ (p.stops pieces).dropLast, fs.node? s = some .directory) ∧
        q = pieces.foldl Place.step p := by
  induction pieces generalizing p with
  | nil => simp [walk, Place.stops, pure, Except.pure, eq_comm]
  | cons piece rest ih =>
    have hwalk : fs.walk p (piece :: rest) = (fs.enter p piece).bind (fs.walk · rest) := rfl
    rcases h : fs.node? p with _ | ⟨c, m⟩ | _
    · simp [hwalk, enter, h, Except.bind]
    · simp [hwalk, enter, h, Except.bind]
    · have henter : fs.enter p piece = .ok (p.step piece) := enter_eq_ok_iff.2 ⟨h, rfl⟩
      rw [hwalk, henter, Except.bind, ih, Place.stops, List.foldl_cons]
      cases rest with
      | nil => simp [Place.stops]
      | cons next rest => simp [Place.stops, and_assoc]

theorem place_eq_ok (h : fs.place path = .ok p) : p = fs.reach path := by
  unfold place at h
  split_ifs at h
  exact (walk_eq_ok_iff.1 h).2.2

/-- A path goes on naming its place as long as the directories stay. -/
theorem place_mono (hdir : ∀ q, fs.node? q = some .directory → fs'.node? q = some .directory)
    (hhere : fs'.here = fs.here) (h : fs.place path = .ok p) : fs'.place path = .ok p := by
  unfold place at h ⊢
  split_ifs at h with hzero hempty
  rw [if_neg hzero, if_neg hempty, start_congr hhere]
  obtain ⟨hfirst, hstops, hq⟩ := walk_eq_ok_iff.1 h
  exact walk_eq_ok_iff.2 ⟨fun hne => hdir _ (hfirst hne), fun s hs => hdir s (hstops s hs), hq⟩

theorem read_of_place {content : List UInt8} {mode : Nat} (h : fs.place path = .ok p)
    (hp : fs.node? p = some (.file content mode)) : fs.read path = .ok content := by
  simp [read, h, hp, bind, Except.bind]

/-- The files but for what is at `p`, which now is `n?`. -/
structure Put (fs fs' : Files) (p : Place) (n? : Option Node) : Prop where
  here : fs'.here = fs.here
  node? : ∀ q, fs'.node? q = if q = p then n? else fs.node? q

variable {n n' : Option Node}

lemma Put.refl (h : fs.node? p = n) : fs.Put fs p n where
  here := rfl
  node? q := by
    split_ifs with hq
    · rw [hq, h]
    · rfl

lemma Put.at (h : fs.Put fs' p n) : fs'.node? p = n := by rw [h.node?, if_pos rfl]

lemma Put.away (h : fs.Put fs' p n) (hq : q ≠ p) : fs'.node? q = fs.node? q := by
  rw [h.node?, if_neg hq]

lemma Put.trans (h : fs.Put fs' p n) (h' : fs'.Put fs'' p n') : fs.Put fs'' p n' where
  here := h'.here.trans h.here
  node? q := by
    by_cases hq : q = p
    · rw [hq, h'.at, if_pos rfl]
    · rw [h'.away hq, h.away hq, if_neg hq]

lemma ne_nil_of_not_directory (h : fs.node? p ≠ some .directory) : p ≠ [] := by
  rintro rfl
  exact h (fs.node?_nil)

/-- The root is a directory at all times, so what happens at it need not be looked at. -/
lemma put_of_node? (hhere : fs'.here = fs.here) (hp : fs.node? p ≠ some .directory)
    (h : ∀ q ≠ [], fs'.node? q = if q = p then n else fs.node? q) : fs.Put fs' p n where
  here := hhere
  node? q := by
    by_cases hq : q = []
    · subst hq
      rw [if_neg (ne_nil_of_not_directory hp).symm, node?_nil, node?_nil]
    · exact h q hq

lemma put_set (n : Node) (hp : fs.node? p ≠ some .directory) : fs.Put (fs.set p n) p (some n) :=
  put_of_node? rfl hp fun q hq => fs.node?_set p q n hq

lemma put_erase (hp : fs.node? p ≠ some .directory) : fs.Put (fs.erase p) p none :=
  put_of_node? rfl hp fun q hq => fs.node?_erase p q hq

theorem change_makeDirectory (h : fs.change (.makeDirectory p) = .ok fs') :
    fs.node? p = none ∧ fs.Put fs' p (some .directory) := by
  simp only [change] at h
  split at h
  · cases h
  · next hp =>
    split_ifs at h
    cases h
    exact ⟨hp, put_set _ (by simp [hp])⟩

/-- A file that is made is empty. It has the mode asked for, unless there was one already. -/
theorem change_create {mode : Nat} (h : fs.change (.create p mode) = .ok fs') :
    ∃ m, fs.Put fs' p (some (.file [] m)) ∧
      (fs.node? p = none ∧ m = mode ∨ ∃ content, fs.node? p = some (.file content m)) := by
  simp only [change] at h
  split at h
  · next content m hp =>
    cases h
    exact ⟨m, put_set _ (by simp [hp]), .inr ⟨content, hp⟩⟩
  · cases h
  · next hp =>
    split_ifs at h
    cases h
    exact ⟨mode, put_set _ (by simp [hp]), .inl ⟨hp, rfl⟩⟩

theorem change_write {content : List UInt8} {mode : Nat}
    (hp : fs.node? p = some (.file content mode)) (new : List UInt8) :
    ∃ fs', fs.change (.write p new) = .ok fs' ∧ fs.Put fs' p (some (.file new mode)) :=
  ⟨fs.set p (.file new mode), by simp [change, hp], put_set _ (by simp [hp])⟩

theorem change_setMode {content : List UInt8} {mode : Nat}
    (hp : fs.node? p = some (.file content mode)) (new : Nat) :
    ∃ fs', fs.change (.setMode p new) = .ok fs' ∧ fs.Put fs' p (some (.file content new)) :=
  ⟨fs.set p (.file content new), by simp [change, hp], put_set _ (by simp [hp])⟩

theorem change_remove {content : List UInt8} {mode : Nat}
    (hp : fs.node? p = some (.file content mode)) :
    ∃ fs', fs.change (.remove p) = .ok fs' ∧ fs.Put fs' p none :=
  ⟨fs.erase p, by simp [change, hp], put_erase (by simp [hp])⟩

/-- A file that is moved is gone from its place and is at the new one, where no directory was. -/
theorem change_move {content : List UInt8} {mode : Nat}
    (hp : fs.node? p = some (.file content mode)) (h : fs.change (.move p q) = .ok fs') :
    fs.node? q ≠ some .directory ∧
      ∃ fs₁, fs.Put fs₁ p none ∧ fs₁.Put fs' q (some (.file content mode)) := by
  have herase : fs.Put (fs.erase p) p none := put_erase (by simp [hp])
  have hq : fs.node? q ≠ some .directory := by
    intro hq
    simp [change, hp, hq] at h
  have hset : fs' = (fs.erase p).set q (.file content mode) := by
    simp only [change, hp] at h
    rcases hn : fs.node? q with _ | ⟨c, m⟩ | _
    · simpa [hn, eq_comm] using h
    · simpa [hn, eq_comm] using h
    · exact absurd hn hq
  refine ⟨hq, fs.erase p, herase, hset ▸ put_set _ ?_⟩
  rw [herase.node? q]
  split_ifs
  · simp
  · exact hq

/-- What may have become of files: directories have stayed, and away from the `touched` places
nothing has changed but that directories were made at some of the places `made`. -/
structure Evolves (touched made : List Place) (fs fs' : Files) : Prop where
  here : fs'.here = fs.here
  directories : ∀ q, fs.node? q = some .directory → fs'.node? q = some .directory
  away : ∀ q ∉ touched, fs'.node? q = fs.node? q ∨
    fs.node? q = none ∧ fs'.node? q = some .directory ∧ q ∈ made

variable {touched touched' made made' : List Place}

theorem Evolves.refl (fs : Files) : Evolves touched made fs fs :=
  ⟨rfl, fun _ h => h, fun _ _ => .inl rfl⟩

theorem Evolves.mono (h : Evolves touched made fs fs') (ht : touched ⊆ touched')
    (hm : made ⊆ made') : Evolves touched' made' fs fs' where
  here := h.here
  directories := h.directories
  away q hq := (h.away q fun hmem => hq (ht hmem)).imp_right fun ⟨a, b, c⟩ => ⟨a, b, hm c⟩

theorem Evolves.trans (h : Evolves touched made fs fs') (h' : Evolves touched made fs' fs'') :
    Evolves touched made fs fs'' where
  here := h'.here.trans h.here
  directories q hq := h'.directories q (h.directories q hq)
  away q hq := by
    rcases h.away q hq with hsame | ⟨hnone, hdir, hmade⟩
    · rw [← hsame]
      exact h'.away q hq
    · exact .inr ⟨hnone, h'.directories q hdir, hmade⟩

theorem evolves_of_node?_eq (hhere : fs'.here = fs.here) (h : ∀ q, fs'.node? q = fs.node? q) :
    Evolves touched made fs fs' :=
  ⟨hhere, fun q hq => (h q).trans hq, fun q _ => .inl (h q)⟩

theorem Put.evolves (h : fs.Put fs' p n) (hp : fs.node? p ≠ some .directory) :
    Evolves [p] [] fs fs' where
  here := h.here
  directories q hq := by
    rw [h.away fun hqp => hp (hqp ▸ hq), hq]
  away q hq := .inl (h.away (by simpa using hq))

theorem Put.evolves_made (hp : fs.node? p = none) (h : fs.Put fs' p (some .directory)) :
    Evolves [] [p] fs fs' where
  here := h.here
  directories q hq := by
    rw [h.away fun hqp => by simp [← hqp, hq] at hp, hq]
  away q _ := by
    by_cases hq : q = p
    · subst hq
      exact .inr ⟨hp, h.at, by simp⟩
    · exact .inl (h.away hq)

theorem Evolves.place (h : Evolves touched made fs fs') (hp : fs.place path = .ok p) :
    fs'.place path = .ok p :=
  place_mono h.directories h.here hp

end Files
end Mend
