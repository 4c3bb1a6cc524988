import Mend.Files.Path

/-! Files and directories below a root, what paths mean among them, and how they change. -/
namespace Mend

/-- A place is the list of the names that lead to it from the root. -/
abbrev Place := List String

/-- The place one piece of a path further. -/
def Place.step (p : Place) (piece : String) : Place :=
  if piece = "" || piece = "." then p else if piece = ".." then p.dropLast else p ++ [piece]

inductive Node
  | file (content : List UInt8) (mode : Nat)
  | directory
deriving DecidableEq

inductive FileError
  | notFound
  | notDirectory
  | isDirectory
  | occupied
  | permissionDenied
  /-- A text with a zero byte names nothing and is no argument. -/
  | zeroByte
  /-- A file that may be run but is no program. -/
  | noProgram
deriving DecidableEq

def FileError.message : FileError → String
  | notFound => "No such file or directory"
  | notDirectory => "Not a directory"
  | isDirectory => "Is a directory"
  | occupied => "File exists"
  | permissionDenied => "Permission denied"
  | zeroByte => "nul byte found in provided data"
  | noProgram => "Exec format error"

/-- The files there are, and the directory that relative paths start from. -/
structure Files where
  nodes : List (Place × Node)
  here : Place

namespace Files

variable (fs : Files)

/-- What is at a place; the root is always a directory. -/
def node? (p : Place) : Option Node :=
  if p = [] then some .directory else (fs.nodes.find? (·.1 = p)).map (·.2)

def isDirectory (p : Place) : Bool := fs.node? p = some .directory

def erase (p : Place) : Files := { fs with nodes := fs.nodes.filter (·.1 ≠ p) }

def set (p : Place) (n : Node) : Files := { fs.erase p with nodes := (p, n) :: (fs.erase p).nodes }

@[simp] theorem node?_nil : fs.node? [] = some .directory := if_pos rfl

theorem node?_erase (p q : Place) (hq : q ≠ []) :
    (fs.erase p).node? q = if q = p then none else fs.node? q := by
  simp only [node?, erase, if_neg hq, List.find?_filter]
  by_cases h : q = p
  · subst h
    rw [if_pos rfl, Option.map_eq_none_iff, List.find?_eq_none]
    simp
  · rw [if_neg h]
    congr 1
    refine congrArg (fun f => fs.nodes.find? f) (funext fun a => ?_)
    by_cases ha : a.1 = q <;> simp [ha, h]

theorem node?_set (p q : Place) (n : Node) (hq : q ≠ []) :
    (fs.set p n).node? q = if q = p then some n else fs.node? q := by
  by_cases h : q = p
  · subst h; simp [node?, set, hq]
  · rw [if_neg h, ← (fs.node?_erase p q hq).trans (if_neg h)]
    simp [node?, set, hq, Ne.symm h]

/-- One piece of a path, from a place that has to be a directory. -/
def enter (p : Place) (piece : String) : Except FileError Place :=
  match fs.node? p with
  | none => .error .notFound
  | some (.file ..) => .error .notDirectory
  | some .directory => .ok (p.step piece)

/-- The place at the end of some pieces; nothing has to be there yet. -/
def walk (p : Place) (pieces : List String) : Except FileError Place := pieces.foldlM fs.enter p

/-- Where a path starts. -/
def start (path : String) : Place := if Path.isAbsolute path then [] else fs.here

/-- The place that a path names. -/
def place (path : String) : Except FileError Place :=
  if '\x00' ∈ path.toList then .error .zeroByte
  else if path = "" then .error .notFound
  else fs.walk (fs.start path) (Path.pieces path)

def read (path : String) : Except FileError (List UInt8) := do
  match fs.node? (← fs.place path) with
  | some (.file content _) => .ok content
  | some .directory => .error .isDirectory
  | none => .error .notFound

/-- The bits that let someone run a file. -/
def runBits : Nat := 0o111

/-- Whether a path names a file that someone may run. -/
def canRun (path : String) : Bool :=
  match fs.place path with
  | .ok p =>
    match fs.node? p with
    | some (.file _ mode) => mode &&& runBits ≠ 0
    | _ => false
  | .error _ => false

/-- The mode of files that are made without asking for one. -/
def plainMode : Nat := 0o644

end Files

inductive Change
  | makeDirectory (p : Place)
  | create (p : Place) (mode : Nat)
  | write (p : Place) (content : List UInt8)
  | setMode (p : Place) (mode : Nat)
  | move (p q : Place)
  | remove (p : Place)

/-- The files after a change that nobody refuses. Making a file empties one that is there and keeps
its mode; moving a file puts it over one that is there. -/
def Files.change (fs : Files) : Change → Except FileError Files
  | .makeDirectory p =>
    match fs.node? p with
    | some _ => .error .occupied
    | none => if fs.isDirectory p.dropLast then .ok (fs.set p .directory) else .error .notFound
  | .create p mode =>
    match fs.node? p with
    | some (.file _ mode) => .ok (fs.set p (.file [] mode))
    | some .directory => .error .isDirectory
    | none => if fs.isDirectory p.dropLast then .ok (fs.set p (.file [] mode)) else .error .notFound
  | .write p content =>
    match fs.node? p with
    | some (.file _ mode) => .ok (fs.set p (.file content mode))
    | some .directory => .error .isDirectory
    | none => .error .notFound
  | .setMode p mode =>
    match fs.node? p with
    | some (.file content _) => .ok (fs.set p (.file content mode))
    | some .directory => .error .isDirectory
    | none => .error .notFound
  | .move p q =>
    match fs.node? p, fs.node? q with
    | some (.file content mode), some (.file ..) | some (.file content mode), none =>
      .ok ((fs.erase p).set q (.file content mode))
    | some .directory, _ | some (.file ..), some .directory => .error .isDirectory
    | none, _ => .error .notFound
  | .remove p =>
    match fs.node? p with
    | some (.file ..) => .ok (fs.erase p)
    | some .directory => .error .isDirectory
    | none => .error .notFound

end Mend
