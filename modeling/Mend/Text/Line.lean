/-! Cutting a text into lines. A line keeps its terminator, so the lines of a text, put back
together, are the text; the last line is the one without a terminator and may be empty. -/
namespace Mend.Text

/-- The characters that end a line on their own: LF, VT, FF, CR, NEL, LS and PS. -/
def isLineBreak (c : Char) : Bool :=
  c = '\n' || c = '\x0b' || c = '\x0c' || c = '\r' || c = '\x85' || c = '\u2028' || c = '\u2029'

/-- Put a character in front of the first line. -/
def consFirst (c : Char) : List (List Char) → List (List Char)
  | [] => [[c]]
  | l :: ls => (c :: l) :: ls

/-- The lines of a text with their terminators; CR LF is one terminator. -/
def lines : List Char → List (List Char)
  | [] => [[]]
  | '\r' :: '\n' :: rest => ['\r', '\n'] :: lines rest
  | c :: rest => if isLineBreak c then [c] :: lines rest else consFirst c (lines rest)

@[simp] theorem flatten_consFirst (c : Char) (ls : List (List Char)) :
    (consFirst c ls).flatten = c :: ls.flatten := by
  cases ls <;> rfl

@[simp] theorem flatten_lines (cs : List Char) : (lines cs).flatten = cs := by
  fun_induction lines cs <;> simp_all

@[simp] theorem length_consFirst (c : Char) (ls : List (List Char)) :
    (consFirst c ls).length = max 1 ls.length := by
  cases ls <;> simp [consFirst]

theorem length_lines_pos (cs : List Char) : 0 < (lines cs).length := by
  fun_induction lines cs <;> grind [length_consFirst]

/-- A line without its terminator, as positions count it: one LF at the end falls off, and then
one CR. -/
def bareLine (line : List Char) : List Char :=
  let withoutLF := if line.getLast? = some '\n' then line.dropLast else line
  if withoutLF.getLast? = some '\r' then withoutLF.dropLast else withoutLF

theorem length_bareLine_le (line : List Char) : (bareLine line).length ≤ line.length := by
  unfold bareLine
  grind [List.length_dropLast]

/-- The spaces and tabs a line starts with. -/
def indent (line : List Char) : List Char := line.takeWhile fun c => c = ' ' || c = '\t'

example : lines ['a', '\r', '\n', 'b', '\r', 'c'] = [['a', '\r', '\n'], ['b', '\r'], ['c']] := by
  decide

end Mend.Text
