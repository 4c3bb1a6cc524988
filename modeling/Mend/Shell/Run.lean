import Mend.Linter.Run
import Mend.Shell.Script
import Mend.Shell.Tool

/-! Running shell scripts, and the programs that command lines name. -/
namespace Mend.Shell

/-- Text for a field, or the end of a field. -/
inductive Chunk
  | text (cs : List Char)
  | gap

def isGap (c : Char) : Bool := c = ' ' || c = '\t' || c = '\n'

/-- An unquoted value: its blanks end fields. -/
def splitValue (cs : List Char) : List Chunk := cs.map fun c => if isGap c then .gap else .text [c]

namespace Machine

variable (m : Machine)

/-- The value of a parameter that is not all arguments. -/
def value (name : String) : String :=
  match name.toNat? with
  | some 0 => m.name
  | some (n + 1) => (m.arguments[n]?).getD ""
  | none =>
    if name = "#" then toString m.arguments.length
    else if name = "?" then toString m.status
    else if name = "$" then "$"
    else (m.environment.lookup name).getD ""

def chunks (p : Part) : List Chunk :=
  match p.piece with
  | .literal cs => [.text cs]
  | .parameter name =>
    if name = "@" || (name = "*" && !p.quoted) then
      let fields := m.arguments.map fun a =>
        if p.quoted then [Chunk.text a.toList] else splitValue a.toList
      [Chunk.gap].intercalate fields
    else
      let value := if name = "*" then " ".intercalate m.arguments else m.value name
      if p.quoted then [.text value.toList] else splitValue value.toList

/-- The fields of some chunks; `current` is the field that has begun. -/
def fields : Option (List Char) → List Chunk → List String
  | none, [] => []
  | some cs, [] => [String.ofList cs]
  | none, .gap :: rest => fields none rest
  | some cs, .gap :: rest => String.ofList cs :: fields none rest
  | current, .text cs :: rest => fields (some (current.getD [] ++ cs)) rest

/-- The fields of a word. -/
def expand (w : Word) : List String := fields none (w.flatMap m.chunks)

/-- A word as one text. -/
def expandText (w : Word) : String := " ".intercalate (m.expand w)

end Machine

/-- The variable and the value of a word that is an assignment. -/
def assignment? (w : Word) : Option (String × Word) :=
  let plain := fun (p : Part) => p.isPlain && p.piece.text.all isNameChar
  let name := String.ofList ((w.takeWhile plain).flatMap (·.piece.text))
  match w.dropWhile plain with
  | ⟨.literal ['='], false⟩ :: value =>
    if name = "" || (name.toList.head?.any Char.isDigit) then none else some (name, value)
  | _ => none

inductive Target
  | stdout
  | stderr
  | file (p : Place)
  | nowhere

/-- The input of a command and where its outputs go. -/
structure Streams where
  input : List UInt8 := []
  stdout : Target := .stdout
  stderr : Target := .stderr

def Streams.target (s : Streams) (number : Nat) : Target :=
  if number = 2 then s.stderr else s.stdout

def Streams.setTarget (s : Streams) (number : Nat) (t : Target) : Streams :=
  if number = 2 then { s with stderr := t } else { s with stdout := t }

def Machine.write (m : Machine) (bs : List UInt8) : Target → Machine
  | .stdout => { m with stdout := m.stdout ++ bs }
  | .stderr => { m with stderr := m.stderr ++ bs }
  | .nowhere => m
  | .file p =>
    match m.files.node? p with
    | some (.file content _) =>
      match m.files.change (.write p (content ++ bs)) with
      | .ok files => { m with files }
      | .error _ => m
    | _ => m

/-- The file that takes output, emptied unless output is appended. -/
def Machine.openOutput (m : Machine) (path : String) (append : Bool) :
    Except FileError (Machine × Target) :=
  if path = "/dev/null" then .ok (m, .nowhere)
  else do
    let p ← m.files.place path
    match m.files.node? p with
    | some (.file ..) =>
      if append then .ok (m, .file p)
      else .ok ({ m with files := ← m.files.change (.create p Files.plainMode) }, .file p)
    | _ => .ok ({ m with files := ← m.files.change (.create p Files.plainMode) }, .file p)

def Machine.redirect (m : Machine) (s : Streams) :
    Redirection → Except FileError (Machine × Streams)
  | .input w =>
    let path := m.expandText w
    if path = "/dev/null" then .ok (m, { s with input := [] })
    else (m.files.read path).map fun input => (m, { s with input })
  | .output n w append => do
    let (m, t) ← m.openOutput (m.expandText w) append
    .ok (m, s.setTarget n t)
  | .duplicate n t => .ok (m, s.setTarget n (s.target t))

def Machine.redirectAll (m : Machine) (s : Streams) :
    List Redirection → Except FileError (Machine × Streams)
  | [] => .ok (m, s)
  | r :: rest => do
    let (m, s) ← m.redirect s r
    m.redirectAll s rest

/-- Run a tool and pass on what it writes. -/
def Machine.use (m : Machine) (tool : Tool) (arguments : List String) (s : Streams) :
    Machine × Flow :=
  let r := tool m arguments s.input
  let m := (r.machine.write r.stdout s.stdout).write r.stderr s.stderr
  ({ m with status := r.status }, r.flow)

def Machine.complain (m : Machine) (line : Nat) (what : String) (s : Streams) : Machine :=
  m.write (utf8 (m.name ++ ": " ++ toString line ++ ": " ++ what ++ "\n")) s.stderr

/-- Run one command whose condition holds. -/
def Machine.command (m : Machine) (c : Simple) : Machine × Flow :=
  let assigned := c.words.takeWhile fun w => (assignment? w).isSome
  let environment := (assigned.filterMap assignment?).map fun (name, w) =>
    (name, " ".intercalate (m.expand (w.map fun p => { p with quoted := true })))
  let words := (c.words.drop assigned.length).flatMap m.expand
  match m.redirectAll {} c.redirections with
  | .error e => ({ m.complain c.line ("cannot open: " ++ e.message) {} with status := 2 }, .next)
  | .ok (m, s) =>
    match words with
    | [] =>
      if environment.isEmpty then (m, .next)
      else ({ m with environment := environment.reverse ++ m.environment, status := 0 }, .next)
    | name :: arguments =>
      match builtins.lookup name with
      | some tool =>
        { m with environment := environment.reverse ++ m.environment }.use tool arguments s
      | none => ({ m.complain c.line (name ++ ": not found") s with status := 127 }, .next)

/-- Run commands in order. -/
def Machine.run (m : Machine) : List Simple → Machine × Flow
  | [] => (m, .exit)
  | c :: rest =>
    let skip := (c.condition = .afterSuccess && m.status ≠ 0) ||
      (c.condition = .afterFailure && m.status = 0)
    if skip then m.run rest
    else
      match m.command c with
      | (m, .next) => m.run rest
      | stopped => stopped

/-- What a shell or a tool leaves when it is done. -/
def Machine.finish (done : Machine × Flow) : Output × Files :=
  let (m, flow) := done
  (⟨Text.decodeLossy m.stdout, Text.decodeLossy m.stderr,
    if flow = .killed then none else some m.status⟩, m.files)

def Machine.runText (m : Machine) (text : String) : Output × Files :=
  match script text with
  | some commands => Machine.finish (m.run commands)
  | none => Machine.finish ({ m.complain 1 "Syntax error" {} with status := 2 }, .exit)

def shells : List String := ["sh", "dash", "bash"]

/-- The name of a program that is where programs are. -/
def systemProgram? (path : String) : Option String :=
  (["/bin/", "/usr/bin/"].find? fun d => path.toList.take d.length = d.toList).map fun d =>
    String.ofList (path.toList.drop d.length)

/-- A shell that is called with some arguments. -/
def runShell (fs : Files) (name : String) (environment : List (String × String))
    (arguments : List String) : Output × Files :=
  let machine := fun (name : String) (arguments : List String) =>
    Machine.mk fs name arguments environment 0 [] []
  match arguments with
  | "-c" :: text :: rest => (machine (rest.headD name) (rest.drop 1)).runText text
  | path :: rest =>
    match fs.read path with
    | .ok bs => (machine path rest).runText (Text.decodeLossy bs)
    | .error _ =>
      let m := (machine name []).complain 0 ("cannot open " ++ path ++ ": No such file") {}
      Machine.finish ({ m with status := 2 }, .exit)
  | [] => (machine name []).runText ""

def runSystem (fs : Files) (called name : String) (environment : List (String × String))
    (arguments : List String) : Except FileError (Output × Files) :=
  if name ∈ shells then .ok (runShell fs called environment arguments)
  else
    match programs.lookup name with
    | some tool =>
      let machine := Machine.mk fs called arguments environment 0 [] []
      .ok (Machine.finish (machine.use tool arguments {}))
    | none => .error .notFound

/-- Run a file, which has to be a script for a shell. -/
def runFile (fs : Files) (path : String) (content : List UInt8)
    (environment : List (String × String)) (arguments : List String) :
    Except FileError (Output × Files) :=
  let first := (Text.decodeLossy (content.takeWhile (· ≠ 10))).toList
  let interpreter := (String.ofList (first.drop 2)).trimAscii.toString
  if first.take 2 = ['#', '!'] then
    if (shells.map ("/bin/" ++ ·) ++ shells.map ("/usr/bin/" ++ ·) ++
      shells.map ("/usr/bin/env " ++ ·)).contains interpreter then
      .ok ((Machine.mk fs path arguments environment 0 [] []).runText (Text.decodeLossy content))
    else .error .notFound
  else .error .noProgram

/-- The texts of a command line that are handed over to the program. -/
def handedOver (c : CommandLine) : List String :=
  c.program :: c.arguments ++ c.directory?.toList ++
    c.environment.entries.flatMap fun (n, v) => [n, v]

/-- Run a command line: what comes out of it, or why it cannot be started, and the files after it. A
name without a slash is one of the programs there are. -/
def start (fs : Files) (c : CommandLine) : Except FileError (Output × Files) := do
  if (handedOver c).any fun s => '\x00' ∈ s.toList then .error .zeroByte
  let here ←
    match c.directory? with
    | some d =>
      let p ← fs.place d
      match fs.node? p with
      | some .directory => .ok p
      | some (.file ..) => .error .notDirectory
      | none => .error .notFound
    | none => .ok fs.here
  let inside : Files := { fs with here }
  let environment := c.environment.entries
  let run : Except FileError (Output × Files) :=
    match systemProgram? c.program with
    | some name => runSystem inside c.program name environment c.arguments
    | none =>
      if '/' ∈ c.program.toList then do
        match inside.node? (← inside.place c.program) with
        | some (.file content _) =>
          if inside.canRun c.program then runFile inside c.program content environment c.arguments
          else .error .permissionDenied
        | some .directory => .error .permissionDenied
        | none => .error .notFound
      else runSystem inside c.program c.program environment c.arguments
  run.map fun (o, after) => (o, { after with here := fs.here })

end Mend.Shell
