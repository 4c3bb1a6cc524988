import Mend.Files.Store
import Mend.Install.Release
import Mend.Install.Source

/-! What happens while something is installed, step by step, and the progress that is reported. -/
namespace Mend

inductive Stage
  | idle
  | resolvingPlatform
  | fetchingMetadata
  | downloading
  | decompressing
  | settingPermissions
  | ready
  | cancelled
  | failed
deriving DecidableEq

/-- One step. Stages, texts and fractions are reported to the listener, and the listener is asked
whether to go on; the rest it does not see. -/
inductive Step (φ : Type)
  | stage (s : Stage)
  | status (text : String)
  | fraction (f : φ)
  | asked (stop : Bool)
  | opened (a : Asset)
  | read (r : ReadResult)
  | listed (entry : String)
  | changed (c : Change)

/-- The steps so far, the last one first. -/
abbrev Journal (φ : Type) := List (Step φ)

/-- A listener says from what has happened so far whether to stop. -/
abbrev Listener (φ : Type) := Journal φ → Bool

/-- Numbers that progress is counted in: doubles when it is shown, exact ones when it is reasoned
about. -/
class Fraction (φ : Type) extends Add φ, Sub φ, Mul φ, Div φ, LT φ, OfScientific φ, NatCast φ where
  decidableLT : DecidableLT φ

attribute [reducible, instance] Fraction.decidableLT

instance : Fraction Float := { natCast := Float.ofNat, decidableLT := inferInstance }

namespace Fraction

variable {φ : Type} [Fraction φ]

def zero : φ := (0 : Nat)

def one : φ := (1 : Nat)

/-- The part `n` of `total`, but at most the whole. -/
def ofParts (n total : Nat) : φ :=
  let f : φ := (n : φ) / (total : φ)
  if one < f then one else f

/-- The nearest number between zero and one. -/
def clamp (f : φ) : φ :=
  if f < zero then zero else if one < f then one else f

end Fraction

/-- A stretch of the progress of something larger. -/
structure Stretch (φ : Type) where
  start : φ
  width : φ

/-- Progress within the stretch, as progress of the whole. -/
def Stretch.place {φ : Type} [Fraction φ] (s : Stretch φ) (f : φ) : φ :=
  s.start + s.width * Fraction.clamp f

end Mend
