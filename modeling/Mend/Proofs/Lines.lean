import Mathlib.Tactic.Lemma
import Mend.Text.Document

/-! Where lines start and end. Starts ascend, a line ends between its start and the next one's, and
the line of a position is a line of the document. -/
namespace Mend

namespace Text

theorem startOf_le (ls : List (List Char)) (l : Nat) : startOf ls l ≤ ls.flatten.length := by
  induction ls generalizing l with
  | nil => simp [startOf]
  | cons x ls ih =>
    cases l with
    | zero => simp
    | succ l => simpa using ih l

/-- The next line starts where a line with its terminator ends. -/
theorem startOf_succ {ls : List (List Char)} {l : Nat} {line : List Char}
    (h : ls[l]? = some line) : startOf ls (l + 1) = startOf ls l + line.length := by
  induction ls generalizing l with
  | nil => simp at h
  | cons x ls ih =>
    cases l with
    | zero => simp_all
    | succ l => simp [ih h, Nat.add_assoc]

theorem startOf_mono (ls : List (List Char)) {l m : Nat} (h : l ≤ m) :
    startOf ls l ≤ startOf ls m := by
  induction ls generalizing l m with
  | nil => simp [startOf]
  | cons x ls ih =>
    cases l with
    | zero => simp
    | succ l =>
      obtain ⟨m, rfl⟩ : ∃ k, m = k + 1 := ⟨m - 1, by omega⟩
      simpa using ih (by omega : l ≤ m)

/-- From where a line starts, the text is that line and the ones behind it. -/
theorem drop_startOf (ls : List (List Char)) (l : Nat) :
    ls.flatten.drop (startOf ls l) = (ls.drop l).flatten := by
  have h : (ls.take l).flatten ++ (ls.drop l).flatten = ls.flatten := by
    rw [← List.flatten_append, List.take_append_drop]
  rw [startOf, ← h, List.drop_left]

theorem drop_startOf_line {ls : List (List Char)} {l : Nat} {line : List Char}
    (h : ls[l]? = some line) :
    ls.flatten.drop (startOf ls l) = line ++ ls.flatten.drop (startOf ls (l + 1)) := by
  obtain ⟨hl, rfl⟩ := List.getElem?_eq_some_iff.1 h
  rw [drop_startOf, drop_startOf, List.drop_eq_getElem_cons hl, List.flatten_cons]

/-- Only the last line of a text can be without any characters. -/
theorem ne_nil_of_lines {cs : List Char} {l : Nat} {line : List Char}
    (h : (lines cs)[l]? = some line) (hl : l + 1 < (lines cs).length) : line ≠ [] := by
  fun_induction lines cs generalizing l with
  | case1 => simp at hl
  | case2 rest ih =>
    cases l with
    | zero =>
      obtain rfl : ['\r', '\n'] = line := by simpa using h
      simp
    | succ l => exact ih (by simpa using h) (by simpa using hl)
  | case3 c rest _ _ ih =>
    cases l with
    | zero =>
      obtain rfl : [c] = line := by simpa using h
      simp
    | succ l => exact ih (by simpa using h) (by simpa using hl)
  | case4 c rest _ _ ih =>
    cases hr : lines rest with
    | nil => simp [hr, consFirst] at hl
    | cons first others =>
      rw [hr] at h hl ih
      cases l with
      | zero =>
        obtain rfl : c :: first = line := by simpa [consFirst] using h
        simp
      | succ l =>
        exact ih (l := l + 1) (by simpa [consFirst] using h) (by simpa [consFirst] using hl)

/-- Each line starts behind the ones in front of it. -/
lemma startOf_lt_of_lt {cs : List Char} {l m : Nat} (h : l < m) (hm : m < (lines cs).length) :
    startOf (lines cs) l < startOf (lines cs) m := by
  have hget := List.getElem?_eq_getElem (Nat.lt_trans h hm)
  have hpos := List.length_pos_iff.2 (ne_nil_of_lines hget (by omega))
  have hsucc := startOf_succ hget
  have hmono := startOf_mono (lines cs) (Nat.succ_le_of_lt h)
  rw [Nat.succ_eq_add_one] at hmono
  omega

lemma startOf_inj {cs : List Char} {l m : Nat} (hl : l < (lines cs).length)
    (hm : m < (lines cs).length) : startOf (lines cs) l = startOf (lines cs) m ↔ l = m := by
  refine ⟨fun heq => ?_, fun heq => by rw [heq]⟩
  rcases Nat.lt_trichotomy l m with h | h | h
  · have := startOf_lt_of_lt h hm
    omega
  · exact h
  · have := startOf_lt_of_lt h hl
    omega

/-- An offset is on the line that starts at it or in front of it, and in front of the next line. -/
theorem positionIn_bounds {ls : List (List Char)} {o : Nat} (hne : ls ≠ [])
    (ho : o ≤ ls.flatten.length) :
    let l := (positionIn ls o).1
    l < ls.length ∧ startOf ls l ≤ o ∧ (l + 1 < ls.length → o < startOf ls (l + 1)) := by
  fun_induction positionIn ls o with
  | case1 => exact absurd rfl hne
  | case2 line => simp
  | case3 line rest o _ ho' => exact ⟨by simp, by simp, fun _ => by simpa using ho'⟩
  | case4 line rest o hrest ho' p ih =>
    rw [List.flatten_cons, List.length_append] at ho
    obtain ⟨hlt, hstart, hnext⟩ : p.1 < rest.length ∧ startOf rest p.1 ≤ o - line.length ∧
        (p.1 + 1 < rest.length → o - line.length < startOf rest (p.1 + 1)) := ih hrest (by omega)
    simp only [List.length_cons, startOf_cons_succ]
    refine ⟨by omega, by omega, fun h => ?_⟩
    have := hnext (by omega)
    omega

/-- A line that is empty but for its terminator. -/
theorem eq_of_bareLine_eq_nil {line : List Char} (h : bareLine line = []) (hne : line ≠ []) :
    line = ['\n'] ∨ line = ['\r', '\n'] ∨ line = ['\r'] := by
  have hlast {xs : List Char} {c : Char} (hx : xs.getLast? = some c) : xs = xs.dropLast ++ [c] := by
    obtain ⟨ys, rfl⟩ := List.getLast?_eq_some_iff.1 hx
    simp
  unfold bareLine at h
  simp only at h
  split at h
  · rename_i hlf
    split at h
    · rename_i hcr
      right; left
      rw [hlast hlf, hlast hcr, h]
      rfl
    · left
      rw [hlast hlf, h]
      rfl
  · split at h
    · rename_i hcr
      right; right
      rw [hlast hcr, h]
      rfl
    · exact absurd h hne

end Text

namespace Document

variable {d : Document} {l o : Nat}

theorem lineStart?_eq_some :
    d.lineStart? l = some o ↔ l < d.lineCount ∧ Text.startOf d.lines l = o := by
  simp [lineStart?]

theorem lineStart?_le (h : d.lineStart? l = some o) : o ≤ d.length := by
  obtain ⟨_, rfl⟩ := lineStart?_eq_some.1 h
  simpa [length] using Text.startOf_le d.lines l

theorem lineStart?_mono {m p : Nat} (hl : d.lineStart? l = some o) (hm : d.lineStart? m = some p)
    (h : l ≤ m) : o ≤ p := by
  obtain ⟨_, rfl⟩ := lineStart?_eq_some.1 hl
  obtain ⟨_, rfl⟩ := lineStart?_eq_some.1 hm
  exact Text.startOf_mono d.lines h

theorem lineSpan?_eq_some {s : Span} : d.lineSpan? l = some s ↔
    d.lineStart? l = some s.start ∧ d.lineStop? l = some s.stop := by
  unfold lineSpan?
  cases d.lineStart? l <;> cases d.lineStop? l <;> simp
  cases s
  simp

theorem lineStop?_eq_some : d.lineStop? l = some o ↔ ∃ start line,
    d.lineStart? l = some start ∧ d.lines[l]? = some line ∧
      o = start + (Text.bareLine line).length := by
  unfold lineStop? lineText?
  cases d.lineStart? l <;> cases d.lines[l]? <;> simp [eq_comm]

theorem lineStop?_le (h : d.lineStop? l = some o) : o ≤ d.length := by
  obtain ⟨start, line, hs, hl, rfl⟩ := lineStop?_eq_some.1 h
  obtain ⟨_, rfl⟩ := lineStart?_eq_some.1 hs
  have hnext := Text.startOf_succ hl
  have hbare := Text.length_bareLine_le line
  have hle := Text.startOf_le d.lines (l + 1)
  simp only [flatten_lines] at hle
  simp only [length]
  omega

theorem lineSpan?_within {s : Span} (h : d.lineSpan? l = some s) : s.Within d.length := by
  obtain ⟨hstart, hstop⟩ := lineSpan?_eq_some.1 h
  obtain ⟨start, line, hs, _, hs'⟩ := lineStop?_eq_some.1 hstop
  obtain rfl : start = s.start := by simpa [hs] using hstart
  exact ⟨by omega, lineStop?_le hstop⟩

/-- An offset is on a line if the line starts at it or in front of it, and the next line, if there
is one, behind it. -/
def OnLine (d : Document) (l o : Nat) : Prop :=
  ∃ start, d.lineStart? l = some start ∧ start ≤ o ∧
    ∀ next, d.lineStart? (l + 1) = some next → o < next

theorem onLine_position (ho : o ≤ d.length) : d.OnLine (d.position o).1 o := by
  have hne : d.lines ≠ [] := List.ne_nil_of_length_pos d.lineCount_pos
  have ho' : o ≤ d.lines.flatten.length := by rwa [flatten_lines]
  obtain ⟨hlt, hstart, hnext⟩ := Text.positionIn_bounds hne ho'
  refine ⟨_, lineStart?_eq_some.2 ⟨hlt, rfl⟩, hstart, fun next h => ?_⟩
  obtain ⟨hlt', rfl⟩ := lineStart?_eq_some.1 h
  exact hnext hlt'

end Document
end Mend
