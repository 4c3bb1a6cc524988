import Mend.Fix.Layout
import Mend.Fix.MissingCases
import Mend.Fix.Naming
import Mend.Fix.Suppression

/-! The strategies for resolving findings, and which rule takes which. -/
namespace Mend

inductive Strategy
  | suppressLine
  | discardTarget
  | narrowParameterType
  | removeEmptyLines
  | extractConstant
  | endWithPeriod
  | externalTestPackage
  | printfName
  | addMissingCases
  | insertBlankLine
  | explain (url : String)
  | openFormatterSettings
  | markDuplicate
  | suppressNumber
  | suppressParameter
  | suppressFunction (linter : String)
deriving DecidableEq, Repr

/-- The page that sets up external formatters. -/
def formatterSettingsPage : String := "File Watchers"

namespace Strategy

def resolveAt {ν : Type} (s : Site ν) : Strategy → Except FixError Resolution
  | suppressLine => .ok s.suppressLine
  | discardTarget => .ok s.discardTarget
  | narrowParameterType => .ok s.narrowParameterType
  | removeEmptyLines => s.removeEmptyLines
  | extractConstant => .ok s.extractConstant
  | endWithPeriod => .ok s.endWithPeriod
  | externalTestPackage => .ok s.externalTestPackage
  | printfName => .ok s.printfName
  | addMissingCases => .ok s.addMissingCases
  | insertBlankLine => .ok s.insertBlankLine
  | explain url => .ok (.single ⟨"Show explanation", .openExplanation url⟩ none)
  | openFormatterSettings =>
    .ok (.single ⟨s!"Configure {formatterSettingsPage}", .openSettings formatterSettingsPage⟩ none)
  | markDuplicate => s.markDuplicate
  | suppressNumber => .ok s.suppressNumber
  | suppressParameter => .ok s.suppressParameter
  | suppressFunction linter => .ok (s.suppressFunction linter)

/-- Where the explanations of rules without a fix are kept. -/
def explanationPage (rule : String) : String :=
  "https://github.com/xxpxxxxp/intellij-plugin-golangci-lint/blob/master/explanation/" ++ rule ++
    ".md"

/-- The strategies of the rules that have one of their own. -/
def ofRule? (rule : String) : Option Strategy :=
  match rule with
  | "ineffassign" => some discardTarget
  | "interfacer" => some narrowParameterType
  | "whitespace" => some removeEmptyLines
  | "goconst" => some extractConstant
  | "godot" => some endWithPeriod
  | "testpackage" => some externalTestPackage
  | "goprintffuncname" => some printfName
  | "exhaustive" => some addMissingCases
  | "nlreturn" => some insertBlankLine
  | "scopelint" | "goerr113" | "exportloopref" => some (explain (explanationPage rule))
  | "noctx" => some (explain "https://github.com/sonatard/noctx/blob/master/README.md")
  | "gofumpt" => some openFormatterSettings
  | "dupl" => some markDuplicate
  | "gomnd" => some suppressNumber
  | "unparam" => some suppressParameter
  | "funlen" | "gocognit" | "gocyclo" | "nestif" => some (suppressFunction rule)
  | _ => none

/-- A rule without a strategy of its own is silenced on its line. -/
def ofRule (rule : String) : Strategy := (ofRule? rule).getD suppressLine

end Strategy

namespace Site

/-- Resolve a finding as its rule asks. -/
def resolve {ν : Type} (s : Site ν) : Except FixError Resolution :=
  (Strategy.ofRule s.diagnostic.rule).resolveAt s

end Site
end Mend
