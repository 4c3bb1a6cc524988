import Mend.Shell.Word

/-! Shell scripts as lists of simple commands. -/
namespace Mend.Shell

/-- When a command runs: in any case, or only after one that succeeded or failed. -/
inductive Condition
  | always
  | afterSuccess
  | afterFailure
deriving DecidableEq

/-- A redirection of an output or the input, by its number. -/
inductive Redirection
  | input (source : Word)
  | output (number : Nat) (target : Word) (append : Bool)
  | duplicate (number target : Nat)

structure Simple where
  condition : Condition
  line : Nat
  words : List Word := []
  redirections : List Redirection := []

def Part.isPlain : Part → Bool
  | ⟨.literal _, false⟩ => true
  | _ => false

def Piece.text : Piece → List Char
  | .literal cs => cs
  | .parameter _ => []

/-- The number that a word is. -/
def number? (w : Word) : Option Nat :=
  if w.all Part.isPlain then (String.ofList (w.flatMap (·.piece.text))).toNat? else none

def redirection? (number? : Option Nat) (operator : String) (target : Word) : Option Redirection :=
  if operator = ">" then some (.output (number?.getD 1) target false)
  else if operator = ">>" then some (.output (number?.getD 1) target true)
  else if operator = "<" then some (.input target)
  else if operator = ">&" then (Shell.number? target).map (.duplicate (number?.getD 1))
  else none

def condition? (operator : String) : Option Condition :=
  if operator = ";" then some .always
  else if operator = "&&" then some .afterSuccess
  else if operator = "||" then some .afterFailure
  else none

/-- The commands that tokens form; `none` where they use what is not known here. `current` is the
command being read. -/
def commands : List Token → Simple → Option (List Simple)
  | [], current => some [current]
  | .newline :: rest, current =>
    (commands rest { condition := .always, line := current.line + 1 }).map (current :: ·)
  | .operator o :: rest, current => do
    let condition ← condition? o
    let more ← commands rest { condition, line := current.line }
    some (current :: more)
  | .redirection n o :: .word target :: rest, current => do
    let r ← redirection? n o target
    commands rest { current with redirections := current.redirections ++ [r] }
  | .redirection .. :: _, _ => none
  | .word w :: rest, current => commands rest { current with words := current.words ++ [w] }

/-- The commands of a script, unless it is not well-formed. -/
def script (text : String) : Option (List Simple) :=
  (tokens (text.length + 1) text.toList).bind fun ts =>
    commands ts { condition := .always, line := 1 }

end Mend.Shell
