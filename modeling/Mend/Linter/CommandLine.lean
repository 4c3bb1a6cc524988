/-! Command lines, independent of how they are run. -/
namespace Mend

/-- Put a variable into assignments that are sorted by name, over one of the same name. -/
def insertAssignment (name value : String) : List (String × String) → List (String × String)
  | [] => [(name, value)]
  | (n, v) :: rest =>
    if name < n then (name, value) :: (n, v) :: rest
    else if name = n then (name, value) :: rest
    else (n, v) :: insertAssignment name value rest

theorem fst_of_mem_insertAssignment {name value : String} {l : List (String × String)}
    {a : String × String} (h : a ∈ insertAssignment name value l) : a.1 = name ∨ a ∈ l := by
  fun_induction insertAssignment name value l <;> grind

theorem pairwise_insertAssignment (name value : String) {l : List (String × String)}
    (h : l.Pairwise (·.1 < ·.1)) : (insertAssignment name value l).Pairwise (·.1 < ·.1) := by
  fun_induction insertAssignment name value l with
  | case1 => simp
  | case2 n v rest hlt =>
    refine List.pairwise_cons.2 ⟨fun a ha => ?_, h⟩
    rcases List.mem_cons.1 ha with rfl | ha
    · exact hlt
    · exact String.lt_trans hlt ((List.pairwise_cons.1 h).1 a ha)
  | case3 n rest _ =>
    exact List.pairwise_cons.2 ⟨(List.pairwise_cons.1 h).1, (List.pairwise_cons.1 h).2⟩
  | case4 n v rest hlt hne ih =>
    obtain ⟨hn, hrest⟩ := List.pairwise_cons.1 h
    refine List.pairwise_cons.2 ⟨fun a ha => ?_, ih hrest⟩
    rcases fst_of_mem_insertAssignment ha with ha | ha
    · grind
    · exact hn a ha

/-- Environment variables, each name once, sorted by name. -/
structure Environment where
  entries : List (String × String)
  sorted : entries.Pairwise (·.1 < ·.1)

namespace Environment

def empty : Environment := ⟨[], .nil⟩

def set (e : Environment) (name value : String) : Environment :=
  ⟨insertAssignment name value e.entries, pairwise_insertAssignment name value e.sorted⟩

end Environment

/-- What to run: a program, its arguments, the directory to run it in unless that is the caller's,
and variables that are added to the caller's environment. -/
structure CommandLine where
  program : String
  arguments : List String
  directory? : Option String
  environment : Environment

namespace CommandLine

def ofProgram (program : String) : CommandLine := ⟨program, [], none, .empty⟩

def withArguments (c : CommandLine) (arguments : List String) : CommandLine :=
  { c with arguments := c.arguments ++ arguments }

def inDirectory (c : CommandLine) (directory : String) : CommandLine :=
  { c with directory? := some directory }

def withVariable (c : CommandLine) (name value : String) : CommandLine :=
  { c with environment := c.environment.set name value }

/-- The linter `executable` on some targets, asked for a JSON report. -/
def lint (executable : String) (targets : List String) : CommandLine :=
  (ofProgram executable).withArguments (["run", "--out-format", "json"] ++ targets)

end CommandLine
end Mend
