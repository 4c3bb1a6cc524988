import Mend.Cli.Run

/-! The program: it takes the files below the current directory as they are, does what the command
line asks for, and puts what has changed back in place. -/
namespace Mend.Main

/-- The modes of files cannot be asked for here, so all of them count as ones that may be run. -/
def assumedMode : Nat := 0o755

/-- What is below a directory. -/
partial def snapshot (directory : String) (p : Place) : IO (List (Place × Node)) := do
  let mut found := []
  for entry in ← (← IO.FS.realPath directory).readDir do
    let q := p ++ [entry.fileName]
    if ← entry.path.isDir then
      found := (q, .directory) :: (← snapshot entry.path.toString q) ++ found
    else
      try
        let content ← IO.FS.readBinFile entry.path
        found := (q, .file content.toList assumedMode) :: found
      catch _ => pure ()
  return found

def pathOf (p : Place) : String := "/" ++ "/".intercalate p

def rights (mode : Nat) : IO.FileRight :=
  let right := fun (n : Nat) => (⟨n / 4 % 2 = 1, n / 2 % 2 = 1, n % 2 = 1⟩ : IO.AccessRight)
  ⟨right (mode / 64), right (mode / 8), right mode⟩

/-- Make what is on the disk what is in `after`, where that differs from `before`. -/
def store (before after : Files) : IO Unit := do
  for (p, _) in before.nodes do
    if (after.node? p).isNone then IO.FS.removeFile (pathOf p)
  for (p, n) in after.nodes.reverse do
    if before.node? p ≠ some n then
      match n with
      | .directory => IO.FS.createDirAll (pathOf p)
      | .file content mode =>
        IO.FS.writeBinFile (pathOf p) ⟨content.toArray⟩
        IO.setAccessRights (pathOf p) (rights mode)

def usage : String := Cli.unlines [
  "Usage: lintfix <platform | install | check>", "",
  "  platform [--wsl <DISTRO>]",
  "  install --dest <DEST> [--chunk-size <N>] [--release-url <URL>] [--wsl <DISTRO>] [--force]",
  "  check <FILE> [--linter <PATH>] [--report <FILE> [--report-root <DIR>]] [--apply] " ++
    "[--wsl <DISTRO>]"]

end Mend.Main

open Mend in
def main (arguments : List String) : IO UInt32 := do
  let directory := (← IO.currentDir).toString
  let here := Path.components directory
  let parents := (List.range here.length).map fun n => (here.take (n + 1), Node.directory)
  let files : Files := ⟨(← Main.snapshot directory here) ++ parents, here⟩
  match Cli.run files Cli.builtFor Cli.offline arguments with
  | .usage .displayHelp =>
    IO.print Main.usage
    return 0
  | .usage .displayVersion =>
    IO.println "lintfix 0.1.0"
    return 0
  | .usage _ =>
    IO.eprint Main.usage
    return 2
  | .done r =>
    Main.store (Cli.diskOf Cli.builtFor files).toFiles r.files
    IO.print r.stdout
    match r.error? with
    | some e =>
      IO.eprintln ("Error: " ++ e)
      return 1
    | none => return 0
