import Mend.Files.Limits

/-! Files with symbolic links between them, on a system that sets limits. -/
namespace Mend

/-- A link is where no file is, and leads on as its text says: from the directory it is in, unless
the text is an absolute path. -/
structure Disk extends Files where
  links : List (Place × String) := []
  limits : Limits := {}

namespace Disk

variable (d : Disk)

/-- The text of the link that is one piece of a path further, if there is one. -/
def link? (p : Place) (piece : String) : Option String :=
  if piece ∈ ["", ".", ".."] then none else (d.links.find? (·.1 = p ++ [piece])).map (·.2)

/-- Whether there is a directory that may be looked into. -/
def opens (p : Place) : Bool := d.isDirectory p && !d.limits.hides d.toFiles p

/-- Go along some pieces of a path. From a link on it is up to `follow`. -/
def walkWith (follow : Place → List String → Option Place) : Place → List String → Option Place
  | p, [] => some p
  | p, piece :: rest =>
    if d.opens p then
      match d.link? p piece with
      | none => walkWith follow (p.step piece) rest
      | some text =>
        if text = "" then none
        else follow (if Path.isAbsolute text then [] else p) (Path.pieces text ++ rest)
    else none

/-- The place at the end of some pieces, with at most `n` links on the way. -/
def walk? : Nat → Place → List String → Option Place
  | 0 => d.walkWith fun _ _ => none
  | n + 1 => d.walkWith (walk? n)

/-- The links that a path may lead through. -/
def maxLinks : Nat := 40

/-- The place that a path leads to in the end; nothing has to be there yet. -/
def place? (path : String) : Option Place :=
  if '\x00' ∈ path.toList || path = "" then none
  else d.walk? maxLinks (d.start path) (Path.pieces path)

/-- The place of what a path leads to, which has to exist. -/
def existing? (path : String) : Option Place := (d.place? path).filter fun p => (d.node? p).isSome

def read? (path : String) : Option (List UInt8) := do
  let p ← d.place? path
  match d.node? p with
  | some (.file content _) => if d.limits.hides d.toFiles p then none else some content
  | _ => none

/-- Put some bytes into a file that is made or emptied first, and say whether that went well. Where
there is too little room the file keeps the first of the bytes. -/
def write (path : String) (content : List UInt8) : Files × Bool :=
  match d.place? path with
  | none => (d.toFiles, false)
  | some p =>
    match d.limits.change d.toFiles (.create p Files.plainMode) with
    | .error _ => (d.toFiles, false)
    | .ok opened =>
      match opened.change (.write p (d.limits.fitting opened p content)) with
      | .error _ => (opened, false)
      | .ok files => (files, d.limits.fits opened p content)

end Disk
end Mend
