/-! The command line: subcommands, options and how they are read. -/
namespace Mend.Cli

/-- Why arguments are not accepted, or that they ask for help. -/
inductive UsageError
  | displayHelp
  | displayVersion
  | helpOnMissing
  | missingRequired
  | invalidSubcommand
  | unknownArgument
  | invalidValue
  | valueValidation
  | argumentConflict
  | tooManyValues
deriving DecidableEq

/-- What values an option takes. -/
inductive ValueKind
  | flag
  | text
  | path
  | number
deriving DecidableEq

/-- An option `--name`, or the positional argument where the name is empty. -/
structure Parameter where
  name : String
  kind : ValueKind
  required : Bool := false
  requires? : Option String := none

/-- Numbers are below this one. -/
def numberLimit : Nat := Nat.pow 2 64

/-- A number in decimal digits; a plus may stand in front. -/
def number? (s : String) : Option Nat :=
  let digits := if s.toList.head? = some '+' then s.toList.drop 1 else s.toList
  let n := digits.foldl (fun n c => 10 * n + (c.toNat - '0'.toNat)) 0
  if digits.isEmpty || !digits.all Char.isDigit || numberLimit ≤ n then none else some n

/-- Reading under way: what was given so far, the argument whose value is not settled yet, and
whether only positional arguments follow. -/
structure Reading where
  given : List (String × String) := []
  pending? : Option (Parameter × Option String) := none
  positionalUsed : Bool := false
  positionalOnly : Bool := false

namespace Reading

/-- Take up a value. No argument may be given twice, paths may not be empty, and numbers have to be
numbers. -/
def accept (r : Reading) (p : Parameter) (value : String) : Except UsageError Reading :=
  if r.given.any (·.1 = p.name) then .error .argumentConflict
  else if p.kind = .path && value = "" then .error .invalidValue
  else if p.kind = .number && (number? value).isNone then .error .valueValidation
  else .ok { r with given := r.given ++ [(p.name, value)], pending? := none }

/-- Settle the argument before the next one is looked at. -/
def settle (r : Reading) : Except UsageError Reading :=
  match r.pending? with
  | none => .ok r
  | some (_, none) => .error .invalidValue
  | some (p, some value) => r.accept p value

end Reading

/-- The name of a long option and the value behind an equals sign. -/
def longOption? (argument : String) : Option (String × Option String) :=
  match argument.toList with
  | '-' :: '-' :: cs =>
    let name := String.ofList (cs.takeWhile (· ≠ '='))
    match cs.dropWhile (· ≠ '=') with
    | [] => some (name, none)
    | _ :: value => some (name, some (String.ofList value))
  | _ => none

/-- The letters of short options. A dash alone is none. -/
def shortOptions? (argument : String) : Option (List Char) :=
  match argument.toList with
  | '-' :: c :: cs => if c = '-' then none else some (c :: cs)
  | _ => none

/-- Read the arguments of a subcommand. -/
def read (parameters : List Parameter) : List String → Reading → Except UsageError Reading
  | [], r => r.settle
  | a :: rest, r =>
    let positional : Except UsageError Reading := do
      match parameters.find? (·.name = "") with
      | some p =>
        if r.positionalUsed then .error .unknownArgument
        else
          let r ← r.settle
          .ok { r with pending? := some (p, some a), positionalUsed := true }
      | none => .error .unknownArgument
    if r.positionalOnly then do read parameters rest (← positional)
    else if a = "--" then read parameters rest { r with positionalOnly := true }
    else
      match longOption? a, shortOptions? a with
      | some (name, value?), _ =>
        let known := parameters.filter (·.name ≠ "") ++ [⟨"help", .flag, false, none⟩]
        match known.find? (·.name = name), value? with
        | none, _ => .error .unknownArgument
        | some p, value? =>
          if p.kind = .flag then
            if value?.isSome then .error .tooManyValues
            else do
              let r ← r.settle
              if name = "help" then .error .displayHelp
              read parameters rest (← r.accept p "")
          else do
            let r ← r.settle
            match value? with
            | some value => read parameters rest (← r.accept p value)
            | none => read parameters rest { r with pending? := some (p, none) }
      | none, some letters =>
        if letters.head? = some 'h' then do
          let _ ← r.settle
          .error .displayHelp
        else .error .unknownArgument
      | none, none =>
        match r.pending? with
        | some (p, none) => read parameters rest { r with pending? := some (p, some a) }
        | _ => do read parameters rest (← positional)

/-- Whether all that is required was given. -/
def isComplete (parameters : List Parameter) (r : Reading) : Bool :=
  let given := fun name => r.given.any (·.1 = name)
  parameters.all fun p =>
    (!p.required || given p.name) && (!given p.name || p.requires?.all given)

/-- The arguments of a subcommand by name. -/
def readAll (parameters : List Parameter) (arguments : List String) :
    Except UsageError (List (String × String)) := do
  let r ← read parameters arguments {}
  if isComplete parameters r then .ok r.given else .error .missingRequired

structure InstallArguments where
  destination : String
  chunkSize? : Option Nat
  releaseUrl? : Option String
  distribution? : Option String
  force : Bool

structure CheckArguments where
  file : String
  linter : String
  report? : Option String
  reportRoot? : Option String
  apply : Bool
  distribution? : Option String

/-- What the command line asks for. -/
inductive Request
  | platform (distribution? : Option String)
  | install (a : InstallArguments)
  | check (a : CheckArguments)

def platformParameters : List Parameter := [{ name := "wsl", kind := .text }]

def installParameters : List Parameter := [
  { name := "dest", kind := .path, required := true }, { name := "chunk-size", kind := .number },
  { name := "release-url", kind := .text }, { name := "wsl", kind := .text },
  { name := "force", kind := .flag }]

def checkParameters : List Parameter := [
  { name := "", kind := .path, required := true }, { name := "linter", kind := .path },
  { name := "report", kind := .path },
  { name := "report-root", kind := .path, requires? := some "report" },
  { name := "apply", kind := .flag }, { name := "wsl", kind := .text }]

def subcommands : List String := ["platform", "install", "check", "help"]

/-- The request in a subcommand's arguments. -/
def subcommand (name : String) (arguments : List String) : Except UsageError Request := do
  if name = "platform" then
    let given ← readAll platformParameters arguments
    .ok (.platform (given.lookup "wsl"))
  else if name = "install" then
    let given ← readAll installParameters arguments
    .ok (.install {
      destination := (given.lookup "dest").getD ""
      chunkSize? := (given.lookup "chunk-size").bind number?
      releaseUrl? := given.lookup "release-url"
      distribution? := given.lookup "wsl"
      force := (given.lookup "force").isSome })
  else if name = "check" then
    let given ← readAll checkParameters arguments
    .ok (.check {
      file := (given.lookup "").getD ""
      linter := (given.lookup "linter").getD "golangci-lint"
      report? := given.lookup "report"
      reportRoot? := given.lookup "report-root"
      apply := (given.lookup "apply").isSome
      distribution? := given.lookup "wsl" })
  else if name = "help" then
    match arguments with
    | [] => .error .displayHelp
    | [topic] => if topic ∈ subcommands then .error .displayHelp else .error .invalidSubcommand
    | _ => .error .invalidSubcommand
  else .error .invalidSubcommand

/-- The request in all arguments. -/
def request (arguments : List String) : Except UsageError Request :=
  match arguments with
  | [] | ["--"] => .error .helpOnMissing
  | "--" :: a :: _ =>
    if a ∈ subcommands then .error .unknownArgument else .error .invalidSubcommand
  | a :: rest =>
    match longOption? a, shortOptions? a with
    | some (name, value?), _ =>
      if name ∉ ["help", "version"] then .error .unknownArgument
      else if value?.isSome then .error .tooManyValues
      else if name = "help" then .error .displayHelp
      else .error .displayVersion
    | none, some letters =>
      if letters.head? = some 'h' then .error .displayHelp
      else if letters.head? = some 'V' then .error .displayVersion
      else .error .unknownArgument
    | none, none => subcommand a rest

end Mend.Cli
