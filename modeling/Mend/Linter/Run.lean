import Mend.Linter.CommandLine
import Mend.Linter.Report
import Mend.Text.Blank

/-! Running the linter and reading its report. -/
namespace Mend

/-- What a finished process leaves: its two outputs, and its exit code unless a signal ended it. -/
structure Output where
  stdout : String
  stderr : String
  code? : Option Int

def Output.succeeded (o : Output) : Bool := o.code? = some 0

inductive ReportError
  | malformed (e : Json.Error)
  | notStarted (reason : String)
  | failed (code? : Option Int) (stderr : String)

def ReportError.message : ReportError → String
  | malformed e => "malformed report: " ++ e.message
  | notStarted reason => "failed to start analyzer: " ++ reason
  | failed code? stderr =>
    let code :=
      match code? with
      | some n => "Some(" ++ toString n ++ ")"
      | none => "None"
    "analyzer exited with " ++ code ++ ": " ++ stderr

namespace Report

def ofText (report : String) : Except ReportError (List Diagnostic) :=
  (parse report).mapError .malformed

/-- The findings in the output of a linter. It exits with an error code also when it has found
something, so only a blank output is a failure. -/
def ofOutput (o : Output) : Except ReportError (List Diagnostic) :=
  if (Text.trim o.stdout.toList).isEmpty then
    .error (.failed o.code? (String.ofList (Text.trim o.stderr.toList)))
  else ofText o.stdout

/-- The findings of the linter that `command` starts, where `start` says how to run commands. -/
def ofCommand (start : CommandLine → Except String Output) (command : CommandLine) :
    Except ReportError (List Diagnostic) :=
  match start command with
  | .error reason => .error (.notStarted reason)
  | .ok o => ofOutput o

end Report
end Mend
