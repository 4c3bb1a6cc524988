import Mend.Cli.Check

/-! What the program does on a command line. -/
namespace Mend.Cli

/-- The machine the program is built for. It tells its version in a file that only it writes. -/
def builtFor : Host where
  system := "linux"
  architecture := "x86_64"
  tempDirectory := "/tmp"
  provided := [(["proc", "version"], .file "Linux version 6.1.0\n".toUTF8.toList 0o444),
    (["proc"], .directory)]
  limits := .byModes

/-- The files as they are found on a machine. -/
def diskOf (host : Host) (fs : Files) : Disk where
  nodes := fs.nodes ++ host.provided
  here := fs.here
  links := host.links
  limits := host.limits

/-- A client without a network. -/
def offline : Client :=
  ⟨.error (.badResponse "no network"), fun _ => .error (.badResponse "no network")⟩

/-- How the program ends: with a result, or with arguments that are not accepted. -/
inductive Ending
  | done (r : Result)
  | usage (e : UsageError)

/-- Show the platform and what is released for it. -/
def showPlatform (fs : Files) (host : Host) (distribution? : Option String) : Result :=
  match Platform.ofNames host.system host.architecture distribution? with
  | .error e => ⟨"", fs, some e.message⟩
  | .ok p => ⟨unlines [
      "platform:   " ++ p.describe, "asset:      " ++ p.assetName "<version>",
      "executable: " ++ p.executable, "temp dir:   " ++ p.tempDirectory host.tempDirectory],
    fs, none⟩

/-- Install the linter, unless it is there already. -/
def install (fs : Files) (host : Host) (client : Client) (a : InstallArguments) : Result :=
  match Platform.ofNames host.system host.architecture a.distribution? with
  | .error e => ⟨"", fs, some e.message⟩
  | .ok p =>
    let present := Path.join a.destination p.executable
    if !a.force && fs.canRun present then ⟨present ++ " is already installed\n", fs, none⟩
    else
      let settings : Settings := { platform? := some p }
      let settings := { settings with releaseUrl := a.releaseUrl?.getD settings.releaseUrl }
      let settings := settings.withChunkSize (a.chunkSize?.getD settings.chunkSize)
      let installer : Installer Float :=
        ⟨client, settings, host, fun _ => false, a.destination⟩
      let (outcome, w) := installer.run.run.run { files := fs }
      match outcome with
      | .ok (.installed path) => ⟨"installed " ++ path ++ "\n", w.files, none⟩
      | .ok (.cancelled download?) =>
        let left := download?.toList.map fun p => "partial download left at " ++ p
        ⟨unlines ("cancelled" :: left), w.files, none⟩
      | .error _ => ⟨"", w.files, some ("failed to install into " ++ a.destination)⟩

def run (fs : Files) (host : Host) (client : Client) (arguments : List String) : Ending :=
  let disk := diskOf host fs
  match request arguments with
  | .error e => .usage e
  | .ok (.platform distribution?) => .done (showPlatform disk.toFiles host distribution?)
  | .ok (.install a) => .done (install disk.toFiles host client a)
  | .ok (.check a) => .done (check disk host a)

end Mend.Cli
