/-! What fixes read from the wording of a message. -/
namespace Mend.Wording

/-- The word after the last space, without the backticks around it. -/
def lastWord (message : List Char) : List Char :=
  let isTick := fun c => c == '\x60'
  let word := (message.reverse.takeWhile (· ≠ ' ')).reverse
  ((word.dropWhile isTick).reverse.dropWhile isTick).reverse

/-- What follows the first colon that a space follows. -/
def afterColon? : List Char → Option (List Char)
  | [] => none
  | ':' :: ' ' :: rest => some rest
  | _ :: rest => afterColon? rest

/-- The cases a message lists as missing. -/
def missingCases? (message : List Char) : Option (List Char) :=
  (afterColon? message).filter fun rest => !rest.isEmpty

example : lastWord "assignment to \x60x\x60".toList = ['x'] := by decide +kernel

example : missingCases? "of type T: A, B".toList = some "A, B".toList := by decide +kernel

end Mend.Wording
