import Mend.Text.Span
import Mend.Text.Line

/-! Documents: a text seen through its lines and positions. Every answer is a function of the list
of lines, so laws about positions reduce to laws about `Text.lines`. -/
namespace Mend
namespace Text

/-- The offset at which line `l` starts, counted from the start of the first line given. -/
def startOf (ls : List (List Char)) (l : Nat) : Nat := (ls.take l).flatten.length

/-- The line that holds an offset and the offset within that line. An offset past the end belongs
to the end of the last line. -/
def positionIn : List (List Char) → Nat → Nat × Nat
  | [], _ => (0, 0)
  | [l], o => (0, min o l.length)
  | l :: ls, o =>
    if o < l.length then (0, o)
    else
      let p := positionIn ls (o - l.length)
      (p.1 + 1, p.2)

@[simp] theorem startOf_zero (ls : List (List Char)) : startOf ls 0 = 0 := by
  simp [startOf]

@[simp] theorem startOf_cons_succ (l : List Char) (ls : List (List Char)) (n : Nat) :
    startOf (l :: ls) (n + 1) = l.length + startOf ls n := by
  simp [startOf]

theorem startOf_length (ls : List (List Char)) : startOf ls ls.length = ls.flatten.length := by
  simp [startOf]

end Text

/-- The text of one source file. Offsets count characters and lines count from zero. -/
structure Document where
  chars : List Char
deriving DecidableEq, Repr

namespace Document

def ofString (text : String) : Document := ⟨text.toList⟩

def text (d : Document) : String := String.ofList d.chars

def length (d : Document) : Nat := d.chars.length

def lines (d : Document) : List (List Char) := Text.lines d.chars

def lineCount (d : Document) : Nat := d.lines.length

/-- Where line `l` starts, if there is such a line. -/
def lineStart? (d : Document) (l : Nat) : Option Nat :=
  if l < d.lineCount then some (Text.startOf d.lines l) else none

/-- The characters of line `l` without its terminator. -/
def lineText? (d : Document) (l : Nat) : Option (List Char) := d.lines[l]?.map Text.bareLine

/-- Where line `l` ends, its terminator not counted. -/
def lineStop? (d : Document) (l : Nat) : Option Nat :=
  match d.lineStart? l, d.lineText? l with
  | some start, some line => some (start + line.length)
  | _, _ => none

def lineSpan? (d : Document) (l : Nat) : Option Span :=
  match d.lineStart? l, d.lineStop? l with
  | some start, some stop => some ⟨start, stop⟩
  | _, _ => none

/-- The spaces and tabs line `l` starts with; none if there is no such line. -/
def lineIndent (d : Document) (l : Nat) : List Char := ((d.lineText? l).map Text.indent).getD []

def char? (d : Document) (offset : Nat) : Option Char := d.chars[offset]?

/-- The characters of a span, as far as the document reaches. -/
def slice (d : Document) (s : Span) : List Char := (d.chars.take s.stop).drop s.start

/-- The line and column of an offset. -/
def position (d : Document) (offset : Nat) : Nat × Nat := Text.positionIn d.lines offset

/-- The offset of a column, which never leaves its line; the end of the document for a line that
does not exist. -/
def offset (d : Document) (line column : Nat) : Nat :=
  match d.lineSpan? line with
  | some s => s.start + min column (s.stop - s.start)
  | none => d.length

theorem lineCount_pos (d : Document) : 0 < d.lineCount := Text.length_lines_pos d.chars

@[simp] theorem flatten_lines (d : Document) : d.lines.flatten = d.chars :=
  Text.flatten_lines d.chars

theorem lineStart?_isSome {d : Document} {l : Nat} :
    (d.lineStart? l).isSome ↔ l < d.lineCount := by
  unfold lineStart?; split <;> simp_all

theorem lineText?_isSome {d : Document} {l : Nat} : (d.lineText? l).isSome ↔ l < d.lineCount := by
  simp [lineText?, lineCount]

end Document
end Mend
