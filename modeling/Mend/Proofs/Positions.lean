import Mend.Proofs.NewLines
import Mend.Proofs.Periods

/-! The lines of a document as a table. Their starts cut the text into pieces, and an offset is told
by its line and column and found again from them. -/
namespace Mend

namespace Text

variable {cs line : List Char} {ls : List (List Char)} {l k o : Nat}

/-- The characters of a line in front of its terminator. -/
def content (line : List Char) : List Char := line.takeWhile fun c => !isLineBreak c

/-- The line break that a line ends with. -/
def terminator (line : List Char) : List Char := line.dropWhile fun c => !isLineBreak c

@[simp] lemma content_append_terminator (line : List Char) :
    content line ++ terminator line = line :=
  List.takeWhile_append_dropWhile

lemma length_content_add_terminator (line : List Char) :
    (content line).length + (terminator line).length = line.length := by
  rw [← List.length_append, content_append_terminator]

lemma drop_content (line : List Char) : line.drop (content line).length = terminator line := by
  have h : (content line ++ terminator line).drop (content line).length = terminator line :=
    List.drop_left
  rwa [content_append_terminator] at h

lemma unbroken_content (line : List Char) : ∀ c ∈ content line, isLineBreak c = false := by
  intro c hc
  simpa using List.all_eq_true.1 List.all_takeWhile c hc

/-- Only the last line is without a terminator, and all others have one line break at the end. -/
theorem terminator_of_lines (h : (lines cs)[l]? = some line) :
    (terminator line = [] ∧ l + 1 = (lines cs).length) ∨
      ((terminator line = ['\r', '\n'] ∨ ∃ c, isLineBreak c = true ∧ terminator line = [c]) ∧
        l + 1 < (lines cs).length) := by
  fun_induction lines cs generalizing l line with
  | case1 =>
    obtain ⟨rfl, rfl⟩ : l = 0 ∧ line = [] := by
      cases l <;> simp_all
    exact .inl ⟨rfl, rfl⟩
  | case2 rest ih =>
    cases l with
    | zero =>
      obtain rfl : ['\r', '\n'] = line := by simpa using h
      exact .inr ⟨.inl (by decide), by simpa using length_lines_pos rest⟩
    | succ l => simpa using ih (by simpa using h)
  | case3 c rest _ hbreak ih =>
    cases l with
    | zero =>
      obtain rfl : [c] = line := by simpa using h
      exact .inr ⟨.inr ⟨c, hbreak, by simp [terminator, hbreak]⟩,
        by simpa using length_lines_pos rest⟩
    | succ l => simpa using ih (by simpa using h)
  | case4 c rest _ hbreak ih =>
    obtain ⟨first, others, hrest⟩ := List.exists_cons_of_length_pos (length_lines_pos rest)
    rw [hrest] at h ih ⊢
    cases l with
    | zero =>
      obtain rfl : c :: first = line := by simpa [consFirst] using h
      have hcons : terminator (c :: first) = terminator first := by
        simp [terminator, hbreak]
      rw [hcons]
      exact ih (l := 0) rfl
    | succ l => exact ih (l := l + 1) (by simpa [consFirst] using h)

/-- A line that ends with a line break which positions count as text. -/
def EndsOddly (line : List Char) : Prop :=
  terminator line ∉ [[], ['\n'], ['\r', '\n'], ['\r']]

instance (line : List Char) : Decidable (EndsOddly line) := inferInstanceAs (Decidable (_ ∉ _))

lemma bareLine_eq (line : List Char) :
    bareLine line = content line ++ bareLine (terminator line) := by
  rw [← bareLine_append (unbroken_content line), content_append_terminator]

/-- Of a line without an odd end all falls off but its content. -/
lemma bareLine_of_not_endsOddly (h : ¬ EndsOddly line) : bareLine line = content line := by
  have hterminator : bareLine (terminator line) = [] := by
    simp only [EndsOddly, List.mem_cons, List.not_mem_nil, or_false, not_not] at h
    rcases h with h | h | h | h <;> rw [h] <;> rfl
  rw [bareLine_eq, hterminator, List.append_nil]

/-- Of a line with an odd end nothing falls off. -/
lemma bareLine_of_endsOddly (h : (lines cs)[l]? = some line) (hodd : EndsOddly line) :
    bareLine line = line ∧ ∃ c, terminator line = [c] ∧ c ≠ '\r' := by
  rw [EndsOddly] at hodd
  rcases terminator_of_lines h with ⟨ht, -⟩ | ⟨ht | ⟨c, -, ht⟩, -⟩
  · simp [ht] at hodd
  · simp [ht] at hodd
  · have hc : c ≠ '\n' ∧ c ≠ '\r' := by simpa [ht] using hodd
    have hself : bareLine (terminator line) = terminator line := by
      simp [ht, bareLine, hc]
    exact ⟨by rw [bareLine_eq, hself, content_append_terminator], c, ht, hc.2⟩

/-- What positions count of a line has no CR. -/
lemma cr_not_mem_bareLine (h : (lines cs)[l]? = some line) : '\r' ∉ bareLine line := by
  have hcontent : '\r' ∉ content line := fun hmem =>
    absurd (unbroken_content line _ hmem) (by decide)
  by_cases hodd : EndsOddly line
  · obtain ⟨hbare, c, ht, hcr⟩ := bareLine_of_endsOddly h hodd
    rw [hbare, ← content_append_terminator line, ht]
    simp [hcontent, hcr.symm]
  · rwa [bareLine_of_not_endsOddly hodd]

/-- A place on a line: in front of one of its characters, or at the end of the last line. -/
lemma positionIn_startOf_add (h : ls[l]? = some line)
    (hk : k < line.length ∨ l + 1 = ls.length ∧ k ≤ line.length) :
    positionIn ls (startOf ls l + k) = (l, k) := by
  induction ls generalizing l with
  | nil => simp at h
  | cons first ls ih =>
    cases l with
    | zero =>
      obtain rfl : first = line := by simpa using h
      cases ls with
      | nil => simp [positionIn]; omega
      | cons next ls =>
        have hlt : k < first.length := by simpa using hk
        simp [positionIn, hlt]
    | succ l =>
      have hrest := ih (by simpa using h) (by simpa using hk)
      cases ls with
      | nil => simp at h
      | cons next ls =>
        rw [startOf_cons_succ, positionIn, if_neg (by omega)]
        · have hsub : first.length + startOf (next :: ls) l + k - first.length =
              startOf (next :: ls) l + k := by omega
          rw [hsub, hrest]
        · simp

/-- Where an offset is: its column is a place on its line. -/
lemma exists_line_positionIn (hne : ls ≠ []) (ho : o ≤ ls.flatten.length) :
    ∃ line, ls[(positionIn ls o).1]? = some line ∧
      startOf ls (positionIn ls o).1 + (positionIn ls o).2 = o ∧
        ((positionIn ls o).2 < line.length ∨
          (positionIn ls o).1 + 1 = ls.length ∧ (positionIn ls o).2 ≤ line.length) := by
  fun_induction positionIn ls o with
  | case1 => exact absurd rfl hne
  | case2 line o =>
    have hmin : min o line.length = o := Nat.min_eq_left (by simpa using ho)
    exact ⟨line, rfl, by simp [hmin], .inr ⟨rfl, Nat.min_le_right _ _⟩⟩
  | case3 line rest o _ ho' => exact ⟨line, rfl, by simp, .inl ho'⟩
  | case4 line rest o hrest ho' p ih =>
    rw [List.flatten_cons, List.length_append] at ho
    obtain ⟨found, hget, hplace, hcolumn⟩ := ih hrest (by omega)
    refine ⟨found, hget, ?_, hcolumn.imp_right (And.imp_left fun hlast => ?_)⟩
    · rw [startOf_cons_succ, Nat.add_assoc, hplace]
      omega
    · rw [List.length_cons, ← hlast]

/-- A place behind what positions count of a line is the one between a CR and its line feed. -/
lemma eq_crlf_of_bareLine_lt (h : (lines cs)[l]? = some line)
    (hk : k < line.length ∨ l + 1 = (lines cs).length ∧ k ≤ line.length)
    (hlt : (bareLine line).length < k) :
    line = bareLine line ++ ['\r', '\n'] ∧ k = (bareLine line).length + 1 := by
  have hodd : ¬ EndsOddly line := by
    intro hodd
    rw [(bareLine_of_endsOddly h hodd).1] at hlt
    omega
  rw [bareLine_of_not_endsOddly hodd] at hlt ⊢
  have hlen := length_content_add_terminator line
  rcases terminator_of_lines h with ⟨ht, -⟩ | ⟨ht | ⟨c, -, ht⟩, hnext⟩
  · rw [ht, List.length_nil] at hlen
    omega
  · rw [ht] at hlen
    simp only [List.length_cons, List.length_nil] at hlen
    exact ⟨by rw [← ht, content_append_terminator], by omega⟩
  · rw [ht, List.length_singleton] at hlen
    omega

end Text

namespace Document

variable {d : Document} {l k o : Nat} {line : List Char}

/-- From the start of a line to the start of the next one, or to the end of the document. -/
def wholeLine (d : Document) (l : Nat) : Span :=
  ⟨(d.lineStart? l).getD d.length, (d.lineStart? (l + 1)).getD d.length⟩

lemma lineStart?_of_line (h : d.lines[l]? = some line) :
    d.lineStart? l = some (Text.startOf d.lines l) :=
  lineStart?_eq_some.2 ⟨(List.getElem?_eq_some_iff.1 h).1, rfl⟩

lemma lineSpan?_of_line (h : d.lines[l]? = some line) : d.lineSpan? l =
    some ⟨Text.startOf d.lines l, Text.startOf d.lines l + (Text.bareLine line).length⟩ :=
  lineSpan?_eq_some.2
    ⟨lineStart?_of_line h, lineStop?_eq_some.2 ⟨_, line, lineStart?_of_line h, h, rfl⟩⟩

/-- A line with its terminator ends where the next line starts. -/
lemma wholeLine_of_line (h : d.lines[l]? = some line) :
    d.wholeLine l = ⟨Text.startOf d.lines l, Text.startOf d.lines l + line.length⟩ := by
  have hl : l < d.lines.length := (List.getElem?_eq_some_iff.1 h).1
  rw [wholeLine, lineStart?_of_line h, Option.getD_some, ← Text.startOf_succ h]
  congr 1
  by_cases hnext : l + 1 < d.lines.length
  · rw [lineStart?_eq_some.2 ⟨hnext, rfl⟩, Option.getD_some]
  · have hlast : l + 1 = d.lines.length := by omega
    have hnone : d.lineStart? (l + 1) = none := if_neg hnext
    rw [hnone, Option.getD_none, hlast, Text.startOf_length, flatten_lines, length]

lemma slice_line (h : d.lines[l]? = some line) {i j : Nat} (hj : j ≤ line.length) :
    d.slice ⟨Text.startOf d.lines l + i, Text.startOf d.lines l + j⟩ =
      (line.take j).drop i := by
  have hdrop := Text.drop_startOf_line h
  rw [flatten_lines] at hdrop
  rw [slice, ← List.drop_drop, List.drop_take, Nat.add_sub_cancel_left, hdrop,
    List.take_append_of_le_length hj]

lemma char?_line {cs : List Char} (h : d.lines[l]? = some cs) (hk : k < cs.length) :
    d.char? (Text.startOf d.lines l + k) = cs[k]? := by
  have hdrop := Text.drop_startOf_line h
  rw [flatten_lines] at hdrop
  rw [char?, ← List.getElem?_drop, hdrop, List.getElem?_append_left hk]

lemma offset_of_line (h : d.lines[l]? = some line) (c : Nat) :
    d.offset l c = Text.startOf d.lines l + min c (Text.bareLine line).length := by
  rw [offset, lineSpan?_of_line h]
  simp only [Nat.add_sub_cancel_left]

lemma exists_line (ho : o ≤ d.length) : ∃ line, d.lines[(d.position o).1]? = some line ∧
    Text.startOf d.lines (d.position o).1 + (d.position o).2 = o ∧
      ((d.position o).2 < line.length ∨
        (d.position o).1 + 1 = d.lines.length ∧ (d.position o).2 ≤ line.length) :=
  Text.exists_line_positionIn (List.ne_nil_of_length_pos d.lineCount_pos) (by rwa [flatten_lines])

/-- No line starts between a CR and the line feed behind it. -/
lemma not_insideCRLF_startOf (hl : l < d.lines.length) :
    ¬ d.InsideCRLF (Text.startOf d.lines l) := by
  obtain ⟨-, hends⟩ := @Text.lines_drop d.chars l hl
  intro hinside
  rcases hends with hnil | ⟨c, hlast, -, hcr⟩
  · have hzero : Text.startOf d.lines l = 0 := by
      rw [Text.startOf, lines, hnil, List.length_nil]
    rw [hzero] at hinside
    exact absurd (hinside.1.symm.trans hinside.2) (by decide)
  · have hne : (d.lines.take l).flatten ≠ [] := by
      intro hnil
      rw [lines] at hnil
      rw [hnil] at hlast
      cases hlast
    have hsplit : Document.mk ((d.lines.take l).flatten ++ (d.lines.drop l).flatten) = d := by
      rw [← List.flatten_append, List.take_append_drop, flatten_lines]
    have hiff := insideCRLF_append (v := (d.lines.drop l).flatten) hne
    rw [hsplit] at hiff
    obtain ⟨hlast', hhead⟩ := hiff.1 hinside
    exact hcr (Option.some.inj (hlast.symm.trans hlast')) hhead

/-- An offset is found again from its line and column unless it is between a CR and its line feed,
where it counts as in front of both. -/
theorem offset_position (ho : o ≤ d.length) : ∃ stop, d.lineStop? (d.position o).1 = some stop ∧
    d.offset (d.position o).1 (d.position o).2 = min o stop ∧ (stop < o ↔ d.InsideCRLF o) := by
  obtain ⟨line, hline, hplace, hcolumn⟩ := exists_line ho
  generalize d.position o = p at hline hplace hcolumn ⊢
  obtain ⟨l, k⟩ := p
  simp only at hline hplace hcolumn ⊢
  subst hplace
  refine ⟨_, (lineSpan?_eq_some.1 (lineSpan?_of_line hline)).2, ?_, ?_⟩
  · rw [offset_of_line hline, Nat.add_min_add_left]
  · rw [Nat.add_lt_add_iff_left]
    constructor
    · intro hlt
      obtain ⟨hcrlf, hk⟩ := Text.eq_crlf_of_bareLine_lt hline hcolumn hlt
      have hlen : k < line.length := by
        rw [hcrlf, List.length_append]
        simp [hk]
      rw [InsideCRLF, char?_line hline hlen]
      have hpred : Text.startOf d.lines l + k - 1 = Text.startOf d.lines l + (k - 1) := by omega
      rw [hpred, char?_line hline (by omega), hk]
      generalize Text.bareLine line = bare at hcrlf
      simp [hcrlf]
    · intro hinside
      refine Nat.lt_of_not_le fun hle => ?_
      have hlen := Text.length_bareLine_le line
      cases k with
      | zero => exact not_insideCRLF_startOf (List.getElem?_eq_some_iff.1 hline).1 hinside
      | succ j =>
        have hcr := (char?_line hline (by omega : j < line.length)).symm.trans hinside.1
        obtain ⟨rest, hrest⟩ := Text.bareLine_prefix line
        rw [← hrest, List.getElem?_append_left (by omega)] at hcr
        exact Text.cr_not_mem_bareLine hline (List.mem_of_getElem? hcr)

/-- Line by line, terminators included, the text comes together again. -/
lemma flatMap_wholeLine (d : Document) :
    ((List.range d.lineCount).flatMap fun l => d.slice (d.wholeLine l)) = d.chars := by
  have hmap : (List.range d.lineCount).map (fun l => d.slice (d.wholeLine l)) = d.lines := by
    refine List.ext_getElem (by simp [lineCount]) fun l hl hl' => ?_
    have hline : d.lines[l]? = some d.lines[l] := List.getElem?_eq_getElem hl'
    have hslice := slice_line hline (i := 0) (Nat.le_refl _)
    rw [List.getElem_map, List.getElem_range, wholeLine_of_line hline]
    rwa [Nat.add_zero, List.take_length, List.drop_zero] at hslice
  rw [List.flatMap_def, hmap, flatten_lines]

/-- Behind the end of a line, as positions count it, there is at most a CR and a line feed of it. -/
lemma slice_behind_line (h : d.lines[l]? = some line) :
    d.slice ⟨Text.startOf d.lines l + (Text.bareLine line).length, (d.wholeLine l).stop⟩ ∈
      [[], ['\n'], ['\r', '\n'], ['\r']] := by
  rw [wholeLine_of_line h, slice_line h (Nat.le_refl _), List.take_length]
  by_cases hodd : Text.EndsOddly line
  · rw [(Text.bareLine_of_endsOddly h hodd).1, List.drop_length]
    simp
  · rw [Text.bareLine_of_not_endsOddly hodd, Text.drop_content]
    exact Classical.not_not.1 hodd

/-- The starts of lines ascend and cut the text into pieces that are the text again; a line ends
where the next one starts, but for a CR and a line feed; and an offset is found again from its line
and column, unless it is between a CR and its line feed. -/
theorem lines_partition (d : Document) :
    d.lineStart? 0 = some 0 ∧
      (∀ l, (d.lineStart? l).isSome ↔ l < d.lineCount) ∧
      (∀ l m start next, l < m → d.lineStart? l = some start → d.lineStart? m = some next →
        start < next) ∧
      ((List.range d.lineCount).flatMap fun l => d.slice (d.wholeLine l)) = d.chars ∧
      (∀ l < d.lineCount, ∃ s, d.lineSpan? l = some s ∧ s.start = (d.wholeLine l).start ∧
        s.start ≤ s.stop ∧ s.stop ≤ (d.wholeLine l).stop ∧
        d.slice ⟨s.stop, (d.wholeLine l).stop⟩ ∈ [[], ['\n'], ['\r', '\n'], ['\r']]) ∧
      ∀ o ≤ d.length, ∃ stop, d.lineStop? (d.position o).1 = some stop ∧
        d.offset (d.position o).1 (d.position o).2 = min o stop ∧
        (d.offset (d.position o).1 (d.position o).2 = o ↔ ¬ d.InsideCRLF o) := by
  refine ⟨lineStart?_eq_some.2 ⟨d.lineCount_pos, Text.startOf_zero _⟩, fun l => lineStart?_isSome,
    fun l m start next hlt hl hm => ?_, d.flatMap_wholeLine, fun l hl => ?_, fun o ho => ?_⟩
  · obtain ⟨-, rfl⟩ := lineStart?_eq_some.1 hl
    obtain ⟨hcount, rfl⟩ := lineStart?_eq_some.1 hm
    exact Text.startOf_lt_of_lt hlt hcount
  · have hline : d.lines[l]? = some d.lines[l] := List.getElem?_eq_getElem hl
    have hlen := Text.length_bareLine_le d.lines[l]
    have hwhole := wholeLine_of_line hline
    refine ⟨_, lineSpan?_of_line hline, by rw [hwhole], Nat.le_add_right _ _, ?_,
      slice_behind_line hline⟩
    rw [hwhole]
    exact Nat.add_le_add_left hlen _
  · obtain ⟨stop, hstop, hoffset, hiff⟩ := offset_position ho
    refine ⟨stop, hstop, hoffset, ?_⟩
    rw [hoffset, ← hiff]
    omega

/-- An offset between a CR and its line feed is found again in front of both. -/
example : let d : Document := ⟨"ab\r\ncd".toList⟩
    d.position 3 = (0, 3) ∧ d.offset 0 3 = 2 ∧ d.position 4 = (1, 0) ∧ d.offset 1 0 = 4 := by
  decide

end Document
end Mend
