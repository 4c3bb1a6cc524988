import Mend.Fix.Site
import Mend.Text.Blank

/-! Fixes that change blank lines and comments only. -/
namespace Mend

/-- A comment with a period at its end, which in a block comment is before the closing mark and the
blanks in front of it. -/
def withPeriod (comment : List Char) : List Char :=
  if ['/', '*'].isPrefixOf comment && ['*', '/'].isSuffixOf comment then
    let body := comment.take (comment.length - 2)
    Text.trimEnd body ++ '.' :: Text.blankEnd body ++ ['*', '/']
  else comment ++ ['.']

/-- The edit that deletes a line if it is empty and has a terminator. -/
def Document.deleteEmptyLine? (d : Document) (line : Nat) : Option Edit :=
  match d.lineSpan? line, d.lineStart? (line + 1) with
  | some s, some next => if s.start = s.stop then some (.delete ⟨s.start, next⟩) else none
  | _, _ => none

/-- The lines of a range that the document has, from the top down. -/
def Document.linesIn (d : Document) (r : LineRange) : List Nat :=
  (List.range d.lineCount).filter fun l => r.first ≤ l && l ≤ r.last

/-- From the start of a range's first line to the end of its last one, if the document has both. -/
def Document.rangeSpan? (d : Document) (r : LineRange) : Option Span :=
  match d.lineStart? r.first, d.lineStop? r.last with
  | some start, some stop => if start ≤ stop then some ⟨start, stop⟩ else none
  | _, _ => none

namespace Site

variable {ν : Type} (s : Site ν)

/-- Delete the empty lines of a range. Lines that hold blanks are not empty. -/
def removeEmptyLinesIn (r : LineRange) : Resolution :=
  let d := s.document
  let edits := (d.linesIn r).reverse.filterMap d.deleteEmptyLine?
  if edits.isEmpty then .highlightOnly (d.rangeSpan? r)
  else .single ⟨"Remove whitespace", .edits edits⟩ (d.rangeSpan? r)

/-- Delete the empty lines among the reported ones. -/
def removeEmptyLines : Except FixError Resolution :=
  match s.shiftedRange? with
  | some r => .ok (s.removeEmptyLinesIn r)
  | none => .error s.missingLineRange

/-- Set the reported line, which has to be indented, off from the one above it. -/
def insertBlankLine : Resolution :=
  match s.document.lineStart? s.line with
  | none => .none
  | some start =>
    match s.document.char? start with
    | some c =>
      if c = ' ' ∨ c = '\t' then
        .single ⟨"Insert new line before", .edits [.insert start "\n"]⟩
          ((s.anchor?.bind s.tree.leafAt?).map s.tree.span)
      else .none
    | none => .none

/-- End the reported comment with a period; the linter reports only comments without one. -/
def endWithPeriod : Resolution :=
  match s.locate? .comment with
  | some comment =>
    let span := s.tree.span comment
    .single ⟨"Add '.' to the end",
        .edits [⟨span, String.ofList (withPeriod (s.tree.text comment))⟩]⟩
      span
  | none => .none

/-- Show where a duplicated block starts: its first line, since a whole block would be noise. -/
def markDuplicate : Except FixError Resolution :=
  match s.diagnostic.lineRange? with
  | some _ => .ok (.highlightOnly (s.document.lineSpan? s.line))
  | none => .error s.missingLineRange

end Site

example : withPeriod "/* a */".toList = "/* a. */".toList := by decide +kernel

example : withPeriod "/*/".toList = "/.*/".toList := by decide +kernel

end Mend
