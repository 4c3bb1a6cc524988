import Mend.Files.Store

/-! What a system lets a program do with files, and how much room it has for them. -/
namespace Mend

/-- Why a change is refused that the files as they are would allow. -/
inductive Refusal
  | forbidden
  | full
deriving DecidableEq

def Refusal.message : Refusal → String
  | forbidden => FileError.permissionDenied.message
  | full => "No space left on device"

/-- Why a change does not come about. -/
inductive Fault
  | failed (e : FileError)
  | refused (r : Refusal)

/-- Limits may look at all the files there are, so at their modes as well. -/
structure Limits where
  /-- A file that may not be read, or a directory that may not be looked into. -/
  hides : Files → Place → Bool := fun _ _ => false
  /-- A change that is not permitted. A file that is open may be written to in any case. -/
  forbids : Files → Change → Bool := fun _ _ => false
  /-- There is no room for anything new at a place. -/
  full : Files → Place → Bool := fun _ _ => false
  /-- The bytes that there is room for in a file, if they are bounded. -/
  room? : Files → Place → Option Nat := fun _ _ => none

/-- Where a change puts something that was not there before. -/
def Files.gain? (fs : Files) : Change → Option Place
  | .makeDirectory p => some p
  | .create p _ => if (fs.node? p).isSome then none else some p
  | .move _ q => if (fs.node? q).isSome then none else some q
  | .write .. | .setMode .. | .remove _ => none

namespace Limits

/-- A file that is there is made anew only if its mode lets someone write to it. -/
def byModes : Limits where
  forbids fs c :=
    match c with
    | .create p _ =>
      match fs.node? p with
      | some (.file _ mode) => mode &&& 0o222 = 0
      | _ => false
    | _ => false

variable (limits : Limits) (fs : Files)

def refusal? : Change → Option Refusal
  | .write .. => none
  | c =>
    if limits.forbids fs c then some .forbidden
    else if (fs.gain? c).any (limits.full fs) then some .full
    else none

/-- The files after a change, if the system lets it happen. -/
def change (c : Change) : Except Fault Files :=
  match fs.change c with
  | .error e => .error (.failed e)
  | .ok after =>
    match limits.refusal? fs c with
    | some r => .error (.refused r)
    | none => .ok after

def read (path : String) : Except FileError (List UInt8) := do
  if limits.hides fs (← fs.place path) then .error .permissionDenied else fs.read path

/-- Whether a file has room for all of some bytes. -/
def fits (p : Place) (content : List UInt8) : Bool :=
  (limits.room? fs p).all (content.length ≤ ·)

/-- The first ones of some bytes, as far as a file has room. -/
def fitting (p : Place) (content : List UInt8) : List UInt8 :=
  match limits.room? fs p with
  | some n => content.take n
  | none => content

end Limits
end Mend
