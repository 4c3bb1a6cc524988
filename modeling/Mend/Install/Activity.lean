import Mend.Install.Copy

/-! Doing things to files step by step, with a journal of all that is done. -/
namespace Mend

/-- The files as they are, and what has happened. -/
structure World (φ : Type) where
  files : Files
  journal : Journal φ := []

/-- How copying into a file ends once that is closed: not all that was copied may fit. -/
def CopyOutcome.closed (fits : Bool) : Except String CopyOutcome → Except InstallError CopyOutcome
  | .error reason => .error (.io reason)
  | .ok outcome => if fits then .ok outcome else .error (.io Refusal.full.message)

/-- Something that is done; it may stop with an error, and leaves its traces in either case. -/
abbrev Activity (φ α : Type) := ExceptT InstallError (StateM (World φ)) α

namespace Activity

variable {φ : Type}

def note (s : Step φ) : Activity φ Unit := modify fun w => { w with journal := s :: w.journal }

/-- Ask the listener whether to stop. -/
def ask (listener : Listener φ) : Activity φ Bool := do
  let stop := listener (← get).journal
  note (.asked stop)
  return stop

/-- What a file operation on `path` gives, or its error. -/
def ofFile {α : Type} (path : String) (r : Except FileError α) : Activity φ α :=
  match r with
  | .ok a => return a
  | .error e => throw (.ofFile path e)

/-- Change files on a system that sets limits. -/
def change (limits : Limits) (path : String) (c : Change) : Activity φ Unit := do
  match limits.change (← get).files c with
  | .ok files => modify fun w => { files, journal := .changed c :: w.journal }
  | .error fault => throw (.ofFault path fault)

/-- The place that `path` names. -/
def place (path : String) : Activity φ Place := do ofFile path ((← get).files.place path)

/-- Remove a file, if that can be done. -/
def discard (limits : Limits) (path : String) (p : Place) : Activity φ Unit :=
  tryCatch (change limits path (.remove p)) fun _ => return ()

variable (limits : Limits)

/-- Go along some pieces of a path, making the directories that are missing. What goes wrong is told
of the path `named`. -/
def makeDirectories (named : String) : Place → List String → Activity φ Place
  | p, [] => return p
  | p, piece :: rest => do
    let q ← ofFile named ((← get).files.enter p piece)
    unless (← get).files.isDirectory q do change limits named (.makeDirectory q)
    makeDirectories named q rest

/-- The directory that `path` is in, made if it is missing. -/
def makeParent (path : String) : Activity φ Place := do
  let pieces := Path.parent path
  let named := Path.directory path
  if pieces.any ('\x00' ∈ ·.toList) then throw (.ofFile named .zeroByte)
  else makeDirectories limits named ((← get).files.start path) pieces

/-- Copy all of a source into the open file at `p`, through a buffer. What was read is put into the
file as far as there is room, also if copying fails. -/
def copyTo [Fraction φ] (plan : CopyPlan φ) (source : Source) (path : String) (p : Place) :
    Activity φ CopyOutcome := do
  let w ← get
  let (result, t) := plan.copy (.buffered (limits.room? w.files p)) { source, journal := w.journal }
  let taken := source.taken t.source
  set { w with journal := t.journal }
  change limits path (.write p (limits.fitting w.files p taken))
  MonadExcept.ofExcept (CopyOutcome.closed (limits.fits w.files p taken) result)

end Activity
end Mend
