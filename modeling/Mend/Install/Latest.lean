import Mend.Install.Extract
import Mend.Install.Settings

/-! Installing the latest release: it is looked up, downloaded, unpacked and made executable. -/
namespace Mend

/-- Where releases come from. -/
structure Client where
  latest : Except InstallError Release
  fetch : Asset → Except InstallError Source

/-- The machine that the program runs on: its names and directory for temporary files, what is there
without anybody having put it there, and the limits it sets. -/
structure Host where
  system : String
  architecture : String
  tempDirectory : String
  provided : List (Place × Node) := []
  links : List (Place × String) := []
  limits : Limits := {}

/-- How an installation ended, short of an error: with the path of the executable, or stopped, with
the path of the download so far if there is one. -/
inductive InstallOutcome
  | installed (path : String)
  | cancelled (download? : Option String)
deriving DecidableEq

/-- An installation that is asked for. -/
structure Installer (φ : Type) where
  client : Client
  settings : Settings
  host : Host
  listener : Listener φ
  destination : String

namespace Installer

open Activity

variable {φ : Type} [Fraction φ] (i : Installer φ)

/-- The share of looking up the release in the whole progress. -/
def metadataShare : φ := 0.2

def downloadShare : φ := 0.6

def extractStart : φ := metadataShare + downloadShare

def downloadStretch : Stretch φ := ⟨metadataShare, downloadShare⟩

def extractStretch : Stretch φ := ⟨extractStart, Fraction.one - extractStart⟩

/-- How to copy within a stretch of the progress. -/
def plan (s : Stretch φ) (total : Nat) : CopyPlan φ where
  listener := i.listener
  place := s.place
  total
  chunkSize := i.settings.chunkSize

def platform : Except InstallError Platform :=
  match i.settings.platform? with
  | some p => .ok p
  | none => Platform.ofNames i.host.system i.host.architecture i.settings.distribution?

def tempDirectory (p : Platform) : String :=
  i.settings.tempDirectory?.getD (p.tempDirectory i.host.tempDirectory)

def target (p : Platform) : String := Path.join i.destination p.executable

def liftError {α : Type} : Except InstallError α → Activity φ α
  | .ok a => return a
  | .error e => throw e

def cancel (download? : Option String) : Activity φ InstallOutcome := do
  note (.stage .cancelled)
  return .cancelled download?

/-- Download an asset to the path `archive`. -/
def download (a : Asset) (archive : String) : Activity φ CopyOutcome := do
  note (.opened a)
  let source ← liftError (i.client.fetch a)
  let _ ← makeParent i.host.limits archive
  let p ← place archive
  change i.host.limits archive (.create p Files.plainMode)
  copyTo i.host.limits (i.plan downloadStretch a.size) source archive p

/-- Let everyone run a file whom its mode does not let yet. -/
def grantRunning (limits : Limits) (path : String) : Activity φ Unit := do
  let p ← place path
  match (← get).files.node? p with
  | some (.file _ mode) =>
    unless mode &&& Files.runBits = Files.runBits do
      change limits path (.setMode p (mode ||| 0o755))
  | _ => throw (.permissionDenied path)

/-- Whatever keeps a file from being made to run counts as a missing permission. -/
def makeRunnable (limits : Limits) (path : String) : Activity φ Unit :=
  tryCatch (grantRunning limits path) fun _ => throw (.permissionDenied path)

/-- Unpack a downloaded archive, and finish. The archive is removed once it is unpacked. -/
def unpack (p : Platform) (archive : String) : Activity φ InstallOutcome := do
  let target := i.target p
  note (.stage .decompressing)
  note (.status ("Decompressing to " ++ target))
  let limits := i.host.limits
  match ← extract limits (i.plan extractStretch 0) p.format archive p.executable target with
  | .cancelled _ => cancel (some archive)
  | .completed _ =>
    tryCatch (do change limits archive (.remove (← place archive))) fun _ => return ()
    note (.stage .settingPermissions)
    makeRunnable limits target
    note (.stage .ready)
    note (.fraction Fraction.one)
    return .installed target

/-- The stages of an installation one after the other. -/
def stages : Activity φ InstallOutcome := do
  note (.stage .resolvingPlatform)
  let p ← liftError i.platform
  note (.stage .fetchingMetadata)
  note (.status "Getting latest release meta")
  let release ← liftError i.client.latest
  note (.fraction metadataShare)
  if ← ask i.listener then return ← cancel none
  match release.version? with
  | none => throw (.badMetadata ("release tag '" ++ release.tag ++ "' has no version"))
  | some version =>
    let a ← liftError (release.select (p.assetName version))
    let archive := Path.join (i.tempDirectory p) a.name
    note (.stage .downloading)
    note (.status ("Downloading " ++ a.name))
    match ← i.download a archive with
    | .cancelled _ => cancel (some archive)
    | .completed _ => i.unpack p archive

/-- Install the latest release. -/
def run : Activity φ InstallOutcome := do
  note (.stage .idle)
  try i.stages
  catch e =>
    note (.stage .failed)
    throw e

end Installer
end Mend
