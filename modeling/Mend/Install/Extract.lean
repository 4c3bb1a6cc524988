import Mend.Archive.Gzip
import Mend.Archive.Tar
import Mend.Archive.Zip
import Mend.Install.Activity
import Mend.Install.Platform

/-! Getting the executable out of a release archive. -/
namespace Mend

open Archive

/-- The entries of an archive. A zip file without a directory has none at all. -/
def ArchiveFormat.entries (format : ArchiveFormat) (file : List UInt8) :
    Except InstallError (Listing InstallError) :=
  match format with
  | .tarGz => .ok ((Tar.entries (Gzip.unpack file)).map (Except.mapError .io))
  | .zip => ((Zip.entries file).mapError .badZip).map fun l => l.map (Except.mapError .badZip)

/-- A name that no file has: it is longer than all others. -/
def Files.freshName (fs : Files) : String :=
  let longest := (fs.nodes.map fun (p, _) => ((p.getLast?.getD "").length)).foldl max 0
  ".staged-" ++ String.ofList (List.replicate longest '-')

/-- The mode of files that are not finished. -/
def stagedMode : Nat := 0o600

namespace Activity

variable {φ : Type} [Fraction φ] (limits : Limits)

/-- What becomes of a staged file once copying has ended: a complete one is put over the target. -/
def settle (staged : Place) (target : String) : CopyOutcome → Activity φ Unit
  | .completed _ => do change limits target (.move staged (← place target))
  | .cancelled _ => discard limits target staged

/-- Write an entry to `target`. It is staged beside the target, which is replaced once the entry is
complete; whatever happens before leaves the target as it was. -/
def install (plan : CopyPlan φ) (entry : Entry) (target : String) : Activity φ CopyOutcome := do
  let directory ← makeParent limits target
  let staged := directory ++ [(← get).files.freshName]
  change limits (Path.directory target) (.create staged stagedMode)
  tryCatch
    (do
      let outcome ← copyTo limits { plan with total := entry.size } entry.content target staged
      settle limits staged target outcome
      return outcome)
    fun e => do
      discard limits target staged
      throw e

/-- Install the first file of the name `executable`. The listener is asked before every entry. -/
def installFirst (plan : CopyPlan φ) (executable target : String) :
    Listing InstallError → Activity φ CopyOutcome
  | [] => throw (.missingExecutable executable)
  | next :: rest => do
    if ← ask plan.listener then return .cancelled 0
    match next with
    | .error e => throw e
    | .ok entry =>
      note (.listed entry.path)
      if entry.isNamed executable then install limits plan entry target
      else installFirst plan executable target rest

/-- Extract the file `executable` from an archive to `target`. -/
def extract (plan : CopyPlan φ) (format : ArchiveFormat) (archive executable target : String) :
    Activity φ CopyOutcome := do
  match limits.read (← get).files archive with
  | .error e => throw (.io e.message)
  | .ok file =>
    match format.entries file with
    | .error e => throw e
    | .ok listing => installFirst limits plan executable target listing

end Activity
end Mend
