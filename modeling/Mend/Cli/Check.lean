import Mend.Cli.Arguments
import Mend.Files.Disk
import Mend.Fix.Batch
import Mend.Go.View
import Mend.Install.Latest
import Mend.Shell.Run

/-! Checking a file: its findings are listed with their fixes, which may be applied. -/
namespace Mend.Cli

/-- What a run leaves: its output, the files after it, and an error if there was one. Links and
limits are as they were. -/
structure Result where
  stdout : String
  files : Files
  error? : Option String := none

/-- A candidate in a line of its own. -/
def describe (c : Candidate) : String :=
  match c.action with
  | .edits _ => c.label
  | .rename _ newName => c.label ++ " (rename all usages to " ++ newName ++ ")"
  | .introduceConstant .. => c.label ++ " (refactoring)"
  | .openExplanation url => c.label ++ ": " ++ url
  | .openSettings page => c.label ++ " (settings: " ++ page ++ ")"

def inspectionLines (file : String) (i : Inspection) : List String :=
  let d := i.diagnostic
  let place := file ++ ":" ++ toString d.line ++ ":" ++ toString d.column
  let fixes := i.resolution.candidates.map fun c => "    fix: " ++ describe c
  (place ++ ": " ++ d.message ++ " (" ++ d.rule ++ ")") ::
    if fixes.isEmpty then ["    no fix available"] else fixes

def unlines (lines : List String) : String := String.join (lines.map (· ++ "\n"))

/-- The text in a file. -/
def readText (d : Disk) (path : String) : Except String String :=
  match (d.read? path).bind fun bytes => String.fromUTF8? ⟨bytes.toArray⟩ with
  | some text => .ok text
  | none => .error ("failed to read " ++ path)

/-- The absolute path of a place. -/
def absolute (p : Place) : String := "/" ++ "/".intercalate p

/-- Findings, the directory that their paths start from, and the files once they are found. -/
structure Findings where
  diagnostics : List Diagnostic
  base : String
  files : Files

/-- The findings of a saved report. Their paths start from the current directory if not from another
one, and it has to be there. -/
def ofReport (d : Disk) (report : String) (root? : Option String) : Except String Findings := do
  let text ← readText d report
  match Report.ofText text with
  | .error _ => .error ("failed to parse " ++ report)
  | .ok diagnostics =>
    match root? with
    | some root => .ok ⟨diagnostics, root, d.toFiles⟩
    | none =>
      if d.isDirectory d.here then .ok ⟨diagnostics, absolute d.here, d.toFiles⟩
      else .error "failed to read the current directory"

/-- The command that runs the linter beside the file at `place`. A linter given by a path is found
from where the program itself runs. -/
def linterCommand (d : Disk) (host : Host) (a : CheckArguments) (place : Place) :
    Except String CommandLine :=
  let linter :=
    if 1 < (Path.components a.linter).length || Path.isAbsolute a.linter then
      match d.existing? a.linter with
      | some p => absolute p
      | none => a.linter
    else a.linter
  let command := (CommandLine.lint linter [place.getLast?.getD ""]).inDirectory
    (absolute place.dropLast)
  match a.distribution? with
  | none => .ok command
  | some name =>
    match Platform.ofNames host.system host.architecture (some name) with
    | .ok p => .ok (p.adapt command)
    | .error e => .error e.message

def ofLinter (d : Disk) (host : Host) (a : CheckArguments) (place : Place) :
    Except String Findings := do
  let command ← linterCommand d host a place
  let run := Shell.start d.toFiles command
  let started := (run.map (·.1)).mapError FileError.message
  match Report.ofCommand (fun _ => started) command with
  | .error _ => .error ("failed to run " ++ a.linter)
  | .ok diagnostics =>
    .ok ⟨diagnostics, absolute place.dropLast, (run.map (·.2)).toOption.getD d.toFiles⟩

/-- Whether a reported path, taken from `base` on, names the file at `place`. -/
def namesFile (d : Disk) (base : String) (place : Place) (reported : String) : Bool :=
  d.existing? (Path.join base reported) = some place

/-- Check a file. The findings in other files are left out; fixes are applied to the text that was
read, and the file is written only if there was one to apply. -/
def check (d : Disk) (host : Host) (a : CheckArguments) : Result :=
  let found : Except String (String × Place × Findings) := do
    let text ← readText d a.file
    match d.existing? a.file with
    | none => .error ("failed to resolve " ++ a.file)
    | some place =>
      let findings ←
        match a.report? with
        | some report => ofReport d report a.reportRoot?
        | none => ofLinter d host a place
      .ok (text, place, findings)
  match found with
  | .error e => ⟨"", d.toFiles, some e⟩
  | .ok (text, place, findings) =>
    let after := { d with toFiles := findings.files }
    let diagnostics := findings.diagnostics.filter
      fun f => namesFile after findings.base place f.file
    let document := Document.ofString text
    let tree := (Go.parse document.chars).tree
    let inspections := inspect tree document (diagnostics.map fun f => (f, f.documentLine))
    let listing := unlines (if inspections.isEmpty then [a.file ++ ": no issues"]
      else inspections.flatMap (inspectionLines a.file))
    if !a.apply then ⟨listing, after.toFiles, none⟩
    else
      match applyFixes document (inspections.map (·.resolution)) with
      | .error e => ⟨listing, after.toFiles, some e.message⟩
      | .ok done =>
        let summary := "applied " ++ toString done.applied ++ " fix(es), skipped " ++
          toString done.skipped ++ "\n"
        if done.applied = 0 then ⟨listing ++ summary, after.toFiles, none⟩
        else
          match after.write a.file done.document.text.toUTF8.toList with
          | (files, true) => ⟨listing ++ summary, files, none⟩
          | (files, false) => ⟨listing, files, some ("failed to write " ++ a.file)⟩

end Mend.Cli
