import Mathlib.Data.List.TakeWhile
import Mathlib.Tactic.Lemma
import Mathlib.Tactic.SplitIfs
import Mend.Install.Platform
import Mend.Text.Lossy

/-! Entering a distribution loses nothing of a command: it is read back from the arguments of the
program that enters, as far as their shape has room for it. -/
namespace Mend

/-- A word taken apart at its first equals sign. -/
def assignment? (word : String) : Option (String × String) :=
  if '=' ∈ word.toList then
    some (String.ofList (word.toList.takeWhile (· != '=')),
      String.ofList (word.toList.dropWhile (· != '=')).tail)
  else none

/-- The assignments that words begin with, and the words from the first other one on. -/
def assignments : List String → List (String × String) × List String
  | [] => ([], [])
  | word :: words =>
    match assignment? word with
    | some a => (a :: (assignments words).1, (assignments words).2)
    | none => ([], word :: words)

section

variable {word name value : String} {words : List String} {l : List (String × String)}

lemma assignment?_eq_none : assignment? word = none ↔ '=' ∉ word.toList := by
  simp [assignment?]

lemma assignment?_append (h : '=' ∉ name.toList) :
    assignment? (name ++ "=" ++ value) = some (name, value) := by
  have hname : ∀ c ∈ name.toList, (c != '=') = true := by grind
  simp [assignment?, List.takeWhile_append_of_pos hname, List.dropWhile_append_of_pos hname]

lemma not_mem_of_assignment? (h : assignment? word = some (name, value)) : '=' ∉ name.toList := by
  simp only [assignment?] at h
  split_ifs at h
  obtain ⟨rfl, -⟩ := Prod.mk.inj (Option.some.inj h)
  rw [String.toList_ofList]
  exact fun hmem => by simpa using List.mem_takeWhile_imp hmem

lemma assignments_append (hl : ∀ a ∈ l, '=' ∉ a.1.toList) (hword : '=' ∉ word.toList) :
    assignments (l.map (fun (name, value) => name ++ "=" ++ value) ++ word :: words) =
      (l, word :: words) := by
  induction l with
  | nil => simp [assignments, assignment?_eq_none.2 hword]
  | cons a l ih =>
    have hrest := ih fun b hb => hl b (List.mem_cons_of_mem _ hb)
    simp [assignments, assignment?_append (hl a List.mem_cons_self), hrest]

/-- Only a word with an equals sign is ever an assignment, and no name has one. -/
lemma assignments_plain :
    (∀ a ∈ (assignments words).1, '=' ∉ a.1.toList) ∧
      ∀ word ∈ (assignments words).2.head?, '=' ∉ word.toList := by
  fun_induction assignments words with
  | case1 => simp
  | case2 word words a ha ih =>
    exact ⟨List.forall_mem_cons.2 ⟨not_mem_of_assignment? ha, ih.1⟩, ih.2⟩
  | case3 word words hnone => simpa using assignment?_eq_none.1 hnone

lemma assignments_snd_suffix : (assignments words).2 <:+ words := by
  fun_induction assignments words with
  | case1 => exact List.suffix_rfl
  | case2 word words a ha ih => exact ih.trans (List.suffix_cons word words)
  | case3 => exact List.suffix_rfl

/-- A name that is behind all others is put at the end. -/
lemma insertAssignment_eq_append (h : ∀ a ∈ l, a.1 < name) :
    insertAssignment name value l = l ++ [(name, value)] := by
  induction l with
  | nil => rfl
  | cons a l ih =>
    obtain ⟨ha, hl⟩ := List.forall_mem_cons.1 h
    rw [insertAssignment, if_neg (String.lt_asymm ha), if_neg (String.ne_of_lt ha).symm, ih hl,
      List.cons_append]

end

namespace Environment

/-- Variables from assignments, of which later ones replace earlier ones. -/
def ofAssignments (l : List (String × String)) : Environment :=
  l.foldl (fun e a => e.set a.1 a.2) empty

lemma entries_injective {e e' : Environment} (h : e.entries = e'.entries) : e = e' := by
  cases e
  cases h
  rfl

lemma entries_foldl_set (e : Environment) (l : List (String × String))
    (h : (e.entries ++ l).Pairwise (·.1 < ·.1)) :
    (l.foldl (fun e a => e.set a.1 a.2) e).entries = e.entries ++ l := by
  induction l generalizing e with
  | nil => simp
  | cons a l ih =>
    have hset : (e.set a.1 a.2).entries = e.entries ++ [a] :=
      insertAssignment_eq_append fun b hb =>
        (List.pairwise_append.1 h).2.2 b hb a List.mem_cons_self
    rw [List.foldl_cons, ih _ (by simpa [hset] using h), hset, List.append_assoc,
      List.singleton_append]

/-- Variables are sorted, so none of them replaces another. -/
@[simp] lemma ofAssignments_entries (e : Environment) : ofAssignments e.entries = e :=
  entries_injective (entries_foldl_set empty e.entries e.sorted)

lemma mem_of_mem_foldl_set {e : Environment} {l : List (String × String)} {a : String × String}
    (h : a ∈ (l.foldl (fun e a => e.set a.1 a.2) e).entries) :
    a ∈ e.entries ∨ a.1 ∈ l.map Prod.fst := by
  induction l generalizing e with
  | nil => exact .inl h
  | cons b l ih =>
    rcases ih h with hset | hl
    · rcases fst_of_mem_insertAssignment hset with hb | he
      · exact .inr (by simp [hb])
      · exact .inl he
    · exact .inr (List.mem_cons_of_mem _ hl)

lemma mem_of_mem_ofAssignments {l : List (String × String)} {a : String × String}
    (h : a ∈ (ofAssignments l).entries) : a.1 ∈ l.map Prod.fst :=
  (mem_of_mem_foldl_set h).resolve_left List.not_mem_nil

end Environment

namespace CommandLine

/-- A program with its arguments; the program `env` is given variables before them. -/
def launched? (directory? : Option String) : List String → Option CommandLine
  | [] => none
  | program :: arguments =>
    if program = "env" then
      match assignments arguments with
      | (_, []) => none
      | (l, program :: arguments) => some ⟨program, arguments, directory?, .ofAssignments l⟩
    else some ⟨program, arguments, directory?, .empty⟩

/-- The distribution that a command enters, and what is run there: the name of the distribution is
given first, then perhaps a directory, then the words that are run. -/
def entered? (w : CommandLine) : Option (String × CommandLine) :=
  if w.program = "wsl.exe" ∧ w.directory? = none ∧ w.environment.entries = [] then
    match w.arguments with
    | "-d" :: d :: "--" :: words => (launched? none words).map (d, ·)
    | "-d" :: d :: "--cd" :: directory :: "--" :: words =>
      (launched? (some directory) words).map (d, ·)
    | _ => none
  else none

/-- The words that run a command in a distribution. -/
def words (c : CommandLine) : List String :=
  if c.environment.entries = [] then c.program :: c.arguments
  else "env" :: (c.environment.entries.map (fun (name, value) => name ++ "=" ++ value) ++
    c.program :: c.arguments)

/-- The documented shape has room for a command: without variables its program is not taken for the
one that sets them, and with variables no equals sign stands where it would be misread. -/
def Fits (c : CommandLine) : Prop :=
  if c.environment.entries = [] then c.program ≠ "env"
  else '=' ∉ c.program.toList ∧ ∀ a ∈ c.environment.entries, '=' ∉ a.1.toList

variable {c : CommandLine} {directory? : Option String} {ws : List String}

lemma launched?_words (h : c.Fits) : launched? c.directory? c.words = some c := by
  rcases c with ⟨program, arguments, directory?, environment⟩
  by_cases hnone : environment.entries = []
  · have hprogram : program ≠ "env" := by simpa [Fits, hnone] using h
    have hempty : Environment.empty = environment := Environment.entries_injective hnone.symm
    simp [words, hnone, launched?, hprogram, hempty]
  · have hplain : '=' ∉ program.toList ∧ ∀ a ∈ environment.entries, '=' ∉ a.1.toList := by
      simpa [Fits, hnone] using h
    obtain ⟨hprogram, hnames⟩ := hplain
    simp [words, hnone, launched?, assignments_append hnames hprogram]

/-- A program that is read behind variables has no equals sign, and neither do their names. -/
lemma plain_of_launched? (h : launched? directory? ws = some c) (hne : c.environment.entries ≠ []) :
    '=' ∉ c.program.toList ∧ ∀ a ∈ c.environment.entries, '=' ∉ a.1.toList := by
  unfold launched? at h
  split at h
  · cases h
  split_ifs at h
  · next program arguments _ =>
    obtain ⟨hnames, hhead⟩ := @assignments_plain arguments
    split at h
    · cases h
    · next l program arguments hread =>
      obtain rfl := Option.some.inj h
      rw [hread] at hnames hhead
      refine ⟨hhead program rfl, fun a ha => ?_⟩
      obtain ⟨b, hb, hname⟩ := List.mem_map.1 (Environment.mem_of_mem_ofAssignments ha)
      exact hname ▸ hnames b hb
  · obtain rfl := Option.some.inj h
    exact absurd rfl hne

lemma exists_launched?_of_entered? {w : CommandLine} {d : String} (h : w.entered? = some (d, c)) :
    ∃ directory? ws, launched? directory? ws = some c := by
  unfold entered? at h
  split_ifs at h
  split at h
  · obtain ⟨c', hlaunched, heq⟩ := Option.map_eq_some_iff.1 h
    exact ⟨none, _, hlaunched.trans (congrArg some (Prod.mk.inj heq).2)⟩
  · next directory _ _ =>
    obtain ⟨c', hlaunched, heq⟩ := Option.map_eq_some_iff.1 h
    exact ⟨some directory, _, hlaunched.trans (congrArg some (Prod.mk.inj heq).2)⟩
  · cases h

lemma length_arguments_of_launched?
    (h : launched? directory? ("env" :: ws) = some c) : c.arguments.length < ws.length := by
  have hsuffix : (assignments ws).2 <:+ ws := assignments_snd_suffix
  rw [launched?, if_pos rfl] at h
  split at h
  · cases h
  · next hread =>
    obtain rfl := Option.some.inj h
    rw [hread] at hsuffix
    exact hsuffix.length_le

/-- Without variables, a program `env` would run one of its own arguments. -/
lemma fits_of_launched?_words (h : launched? c.directory? c.words = some c) : c.Fits := by
  unfold Fits
  split_ifs with hnone
  · intro hprogram
    rw [words, if_pos hnone, hprogram] at h
    exact (length_arguments_of_launched? h).false
  · exact plain_of_launched? h hnone

end CommandLine

namespace Platform

lemma entered?_adapt (d : String) (architecture : Architecture) (c : CommandLine) :
    (adapt ⟨.wsl d, architecture⟩ c).entered? =
      (CommandLine.launched? c.directory? c.words).map (d, ·) := by
  rcases c with ⟨program, arguments, _ | directory, entries, hsorted⟩ <;> cases entries <;>
    simp [adapt, CommandLine.entered?, CommandLine.words, CommandLine.withArguments,
      CommandLine.ofProgram, Environment.empty]

/-- A command is read back from what enters a distribution with it just if the documented shape has
room for it; what is read in that shape behind variables has no equals sign where it would be taken
for another one, so no words at all would do for other commands. Elsewhere commands are left as they
are. -/
theorem entered_adapt :
    (∀ (d : String) (architecture : Architecture) (c : CommandLine),
      (adapt ⟨.wsl d, architecture⟩ c).entered? = some (d, c) ↔ c.Fits) ∧
    (∀ (w c : CommandLine) (d : String), w.entered? = some (d, c) →
      c.environment.entries = [] ∨
        '=' ∉ c.program.toList ∧ ∀ a ∈ c.environment.entries, '=' ∉ a.1.toList) ∧
    ∀ (p : Platform) (c : CommandLine), (∀ d, p.system ≠ .wsl d) → p.adapt c = c := by
  refine ⟨fun d architecture c => ?_, ?_, ?_⟩
  · rw [entered?_adapt, Option.map_eq_some_iff]
    simp only [Prod.mk.injEq, true_and, exists_eq_right]
    exact ⟨CommandLine.fits_of_launched?_words, CommandLine.launched?_words⟩
  · intro w c d h
    obtain ⟨directory?, ws, hlaunched⟩ := CommandLine.exists_launched?_of_entered? h
    exact Classical.or_iff_not_imp_left.2 (CommandLine.plain_of_launched? hlaunched)
  · rintro ⟨_ | _ | _ | d, architecture⟩ c h
    · rfl
    · rfl
    · rfl
    · exact absurd rfl (h d)

example :
    let c := ((CommandLine.lint "/home/me/go/bin/golangci-lint" ["./..."]).inDirectory
      "/home/me/project").withVariable "GOFLAGS" "-mod=mod"
    (adapt ⟨.wsl "Ubuntu", .amd64⟩ c).arguments = ["-d", "Ubuntu", "--cd", "/home/me/project", "--",
      "env", "GOFLAGS=-mod=mod", "/home/me/go/bin/golangci-lint", "run", "--out-format", "json",
      "./..."] := by
  rfl

/-- A program with an equals sign is taken for one more variable, and paths that are no text are not
told apart once they have become text. -/
theorem entered_adapt_of_assignment :
    let p : Platform := ⟨.wsl "Ubuntu", .amd64⟩
    let c := ((CommandLine.ofProgram "a=b").withArguments ["run"]).withVariable "X" "1"
    let c' := ((CommandLine.ofProgram "run").withVariable "X" "1").withVariable "a" "b"
    (c.program ≠ "env" ∧ ∀ a ∈ c.environment.entries, '=' ∉ a.1.toList) ∧
      p.adapt c = p.adapt c' ∧ (p.adapt c).entered? = some ("Ubuntu", c') ∧ c' ≠ c ∧
      p.adapt (.ofProgram (Text.decodeLossy [0x61, 0xff])) =
        p.adapt (.ofProgram (Text.decodeLossy [0x61, 0xfe])) := by
  have hlossy : Text.decodeLossy [0x61, 0xff] = Text.decodeLossy [0x61, 0xfe] := by decide
  have hprogram : "run" ≠ "a=b" := by decide
  exact ⟨by decide, rfl, rfl, fun h => hprogram (congrArg CommandLine.program h), by rw [hlossy]⟩

end Platform
end Mend
