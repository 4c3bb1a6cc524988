import Mathlib.Tactic.Lemma
import Mend.Json.Lexical

/-! JSON texts as a grammar: which texts write a value. A value has many texts, which differ in
white space, in the escapes of strings and in the order of members; a text writes one value. -/
namespace Mend.Json

def Spaces (ws : List Char) : Prop := ∀ c ∈ ws, isSpace c = true

/-- What may stand behind a value. -/
def Ends (rest : List Char) : Prop :=
  ∀ c ∈ rest.head?, c = ',' ∨ c = ']' ∨ c = '\x7d' ∨ isSpace c = true

def lowerHex : List Char := "0123456789abcdef".toList

def upperHex : List Char := "0123456789ABCDEF".toList

def HexDigit (n : Nat) (c : Char) : Prop := lowerHex[n]? = some c ∨ upperHex[n]? = some c

instance (n : Nat) (c : Char) : Decidable (HexDigit n c) := inferInstanceAs (Decidable (_ ∨ _))

/-- A number below `0x10000` as four hexadecimal digits. -/
inductive HexText : Nat → List Char → Prop
  | digits {n₁ n₂ n₃ n₄ d₁ d₂ d₃ d₄} (h₁ : HexDigit n₁ d₁) (h₂ : HexDigit n₂ d₂)
      (h₃ : HexDigit n₃ d₃) (h₄ : HexDigit n₄ d₄) :
      HexText (((n₁ * 16 + n₂) * 16 + n₃) * 16 + n₄) [d₁, d₂, d₃, d₄]

/-- What may follow a backslash, and what it then stands for. -/
def shortEscapes : List (Char × Char) :=
  [('"', '"'), ('\\', '\\'), ('/', '/'), ('b', '\x08'), ('f', '\x0c'), ('n', '\n'), ('r', '\r'),
    ('t', '\t')]

/-- The ways to write a character in a string. -/
inductive CharText : Char → List Char → Prop
  | plain {c} (hquote : c ≠ '"') (hslash : c ≠ '\\') (hcontrol : ' ' ≤ c) : CharText c [c]
  | short {c e} (h : (e, c) ∈ shortEscapes) : CharText c ['\\', e]
  | unit {c ds} (h : HexText c.toNat ds) : CharText c ('\\' :: 'u' :: ds)
  /-- A surrogate pair. -/
  | pair {c high low ds es} (hhigh : HexText high ds) (hlow : HexText low es)
      (hhigh' : 0xd800 ≤ high ∧ high < 0xdc00) (hlow' : 0xdc00 ≤ low ∧ low < 0xe000)
      (hc : c.toNat = (high - 0xd800) * 0x400 + (low - 0xdc00) + 0x10000) :
      CharText c ('\\' :: 'u' :: ds ++ '\\' :: 'u' :: es)

/-- An escape that would be the second half of a surrogate pair. -/
def LowHalf (cs : List Char) : Prop :=
  ∃ low ds rest, HexText low ds ∧ (0xdc00 ≤ low ∧ low < 0xe000) ∧ cs = '\\' :: 'u' :: ds ++ rest

/-- A string from behind its opening quote on. A string with half of a surrogate pair in it is
written as any other, but is no text. -/
inductive StringText : Option (List Char) → List Char → Prop
  | close : StringText (some []) ['"']
  | char {c s? p cs} (hc : CharText c p) (hs : StringText s? cs) :
      StringText (s?.map (c :: ·)) (p ++ cs)
  | half {n s? ds cs} (h : HexText n ds) (hn : 0xd800 ≤ n ∧ n < 0xe000)
      (hnext : n < 0xdc00 → ¬ LowHalf cs) (hs : StringText s? cs) :
      StringText none ('\\' :: 'u' :: ds ++ cs)

def Digits (ds : List Char) : Prop := ds ≠ [] ∧ ∀ d ∈ ds, d.isDigit = true

/-- A natural number without leading zeros. -/
def Whole (ds : List Char) : Prop := Digits ds ∧ (ds.head? = some '0' → ds = ['0'])

/-- The number that digits write behind those of `n`. -/
def decimalFrom (n : Nat) (ds : List Char) : Nat := ds.foldl (fun n d => n * 10 + digit d) n

def decimal (ds : List Char) : Nat := decimalFrom 0 ds

def FractionText (cs : List Char) : Prop := cs = [] ∨ ∃ ds, cs = '.' :: ds ∧ Digits ds

def ExponentText (cs : List Char) : Prop :=
  cs = [] ∨ ∃ e sign ds, cs = e :: sign ++ ds ∧ (e = 'e' ∨ e = 'E') ∧
    (sign = [] ∨ sign = ['+'] ∨ sign = ['-']) ∧ Digits ds

/-- A number that is not just digits: it has a sign, a fraction or an exponent. -/
inductive NumberText : List Char → Prop
  | negative {ds fraction exponent} (hds : Whole ds) (hf : FractionText fraction)
      (he : ExponentText exponent) : NumberText ('-' :: ds ++ fraction ++ exponent)
  | positive {ds fraction exponent} (hds : Whole ds) (hf : FractionText fraction)
      (he : ExponentText exponent) (hne : fraction ++ exponent ≠ []) :
      NumberText (ds ++ fraction ++ exponent)

/-- JSON values. A string or a name is `none` where it is no text, and the value of a number that is
not just digits is left out. -/
inductive Value
  | null
  | bool (b : Bool)
  | natural (n : Nat)
  | number
  | string (s? : Option (List Char))
  | list (vs : List Value)
  | object (ms : List (Option (List Char) × Value))

/-- An element of a list as it is written, with the white space around it. -/
structure Element where
  before : List Char
  value : Value
  text : List Char
  after : List Char

namespace Element

def written (e : Element) : List Char := e.before ++ e.text ++ e.after

def Spaced (e : Element) : Prop := Spaces e.before ∧ Spaces e.after

/-- The rest of a list; `comma` says that an element stands in front of it. -/
def texts : Bool → List Element → List Char
  | _, [] => [']']
  | comma, e :: es => (if comma then [','] else []) ++ e.written ++ texts true es

end Element

/-- A member of an object as it is written: the white space in front of it, its name, the white
space in front of the colon, and its value. -/
structure Member where
  before : List Char
  name? : Option (List Char)
  nameText : List Char
  gap : List Char
  element : Element

namespace Member

def written (m : Member) : List Char :=
  m.before ++ '"' :: m.nameText ++ m.gap ++ ':' :: m.element.written

def Spaced (m : Member) : Prop := Spaces m.before ∧ Spaces m.gap ∧ m.element.Spaced

def pair (m : Member) : Option (List Char) × Value := (m.name?, m.element.value)

/-- The rest of an object; `comma` says that a member stands in front of it. -/
def texts : Bool → List Member → List Char
  | _, [] => ['\x7d']
  | comma, m :: ms => (if comma then [','] else []) ++ m.written ++ texts true ms

end Member

/-- The texts that write a value. -/
inductive Writes : Value → List Char → Prop
  | null : Writes .null ['n', 'u', 'l', 'l']
  | yes : Writes (.bool true) ['t', 'r', 'u', 'e']
  | no : Writes (.bool false) ['f', 'a', 'l', 's', 'e']
  | natural {ds} (h : Whole ds) : Writes (.natural (decimal ds)) ds
  | number {cs} (h : NumberText cs) : Writes .number cs
  | string {s? cs} (h : StringText s? cs) : Writes (.string s?) ('"' :: cs)
  | list {ws} {es : List Element} (hws : Spaces ws) (hs : ∀ e ∈ es, e.Spaced)
      (hes : ∀ e ∈ es, Writes e.value e.text) :
      Writes (.list (es.map (·.value))) ('[' :: ws ++ Element.texts false es)
  | object {ws} {ms : List Member} (hws : Spaces ws) (hs : ∀ m ∈ ms, m.Spaced)
      (hnames : ∀ m ∈ ms, StringText m.name? m.nameText)
      (hms : ∀ m ∈ ms, Writes m.element.value m.element.text) :
      Writes (.object (ms.map Member.pair)) ('\x7b' :: ws ++ Member.texts false ms)

lemma spaces_nil : Spaces [] := by simp [Spaces]

lemma Spaces.ends {ws rest : List Char} (h : Spaces ws) (hrest : Ends rest) :
    Ends (ws ++ rest) := by
  cases ws with
  | nil => exact hrest
  | cons c cs => simp [Ends, h c]

lemma Element.ends_texts (es : List Element) (rest : List Char) : Ends (texts true es ++ rest) := by
  cases es <;> simp [Ends, texts]

lemma Member.ends_texts (ms : List Member) (rest : List Char) : Ends (texts true ms ++ rest) := by
  cases ms <;> simp [Ends, texts]

/-- Each comma takes a character, and so does the bracket. -/
lemma Element.length_texts (comma : Bool) (es : List Element) :
    es.length + comma.toNat ≤ (texts comma es).length := by
  induction es generalizing comma with
  | nil => cases comma <;> simp [texts]
  | cons e es ih =>
    have ih := ih true
    cases comma <;> simp [texts] at ih ⊢ <;> omega

lemma Member.length_texts (comma : Bool) (ms : List Member) :
    ms.length + comma.toNat ≤ (texts comma ms).length := by
  induction ms generalizing comma with
  | nil => cases comma <;> simp [texts]
  | cons m ms ih =>
    have ih := ih true
    cases comma <;> simp [texts] at ih ⊢ <;> omega

lemma skipSpace_append {ws : List Char} (h : Spaces ws) (cs : List Char) :
    skipSpace (ws ++ cs) = skipSpace cs := by
  rw [skipSpace, List.dropWhile_append_of_pos h, skipSpace]

lemma skipSpace_cons {c : Char} (h : isSpace c = false) (cs : List Char) :
    skipSpace (c :: cs) = c :: cs := by
  simp [skipSpace, h]

lemma Digits.head {ds : List Char} (h : Digits ds) :
    ∃ d rest, ds = d :: rest ∧ d.isDigit = true := by
  obtain ⟨d, rest, rfl⟩ := List.exists_cons_of_ne_nil h.1
  exact ⟨d, rest, rfl, h.2 d (by simp)⟩

/-- The characters that a value's text may start with. -/
def Value.Begins : Value → Char → Prop
  | .null, c => c = 'n'
  | .bool true, c => c = 't'
  | .bool false, c => c = 'f'
  | .natural _, c => c.isDigit = true
  | .number, c => c = '-' ∨ c.isDigit = true
  | .string _, c => c = '"'
  | .list _, c => c = '['
  | .object _, c => c = '\x7b'

lemma Writes.begins {v : Value} {cs : List Char} (h : Writes v cs) :
    ∃ c rest, cs = c :: rest ∧ v.Begins c := by
  cases h with
  | natural h =>
    obtain ⟨d, rest, rfl, hd⟩ := h.1.head
    exact ⟨d, rest, rfl, hd⟩
  | number h =>
    cases h with
    | negative hds hf he => exact ⟨_, _, rfl, .inl rfl⟩
    | positive hds hf he =>
      obtain ⟨d, rest, rfl, hd⟩ := hds.1.head
      exact ⟨d, _, rfl, .inr hd⟩
  | _ => exact ⟨_, _, rfl, rfl⟩

lemma Writes.length_pos {v : Value} {cs : List Char} (h : Writes v cs) : 0 < cs.length := by
  obtain ⟨c, rest, rfl, _⟩ := h.begins
  simp

lemma isSpace_of_isDigit {c : Char} (hc : c.isDigit = true) : isSpace c = false := by
  refine Bool.eq_false_iff.2 fun hspace => ?_
  have hspace : c = ' ' ∨ c = '\n' ∨ c = '\t' ∨ c = '\r' := by
    simpa [isSpace, or_assoc] using hspace
  rcases hspace with rfl | rfl | rfl | rfl <;> cases hc

/-- No value starts with white space or with what may stand behind a value. -/
lemma Value.Begins.ne {v : Value} {c : Char} (h : v.Begins c) :
    isSpace c = false ∧ c ≠ ',' ∧ c ≠ ']' ∧ c ≠ '\x7d' := by
  have hdigit (hc : c.isDigit = true) : isSpace c = false ∧ c ≠ ',' ∧ c ≠ ']' ∧ c ≠ '\x7d' := by
    refine ⟨isSpace_of_isDigit hc, ?_, ?_, ?_⟩ <;> (rintro rfl; cases hc)
  cases v with
  | natural n => exact hdigit h
  | number => exact h.elim (fun h => by subst h; decide) hdigit
  | bool b => cases b <;> (obtain rfl := h; decide)
  | _ => obtain rfl := h; decide

/-- A word that starts with `n` is null. -/
lemma Value.Begins.null {v : Value} (h : v.Begins 'n') : v = .null := by
  cases v with
  | null => rfl
  | bool b => cases b <;> cases h
  | number => simp [Value.Begins] at h
  | _ => cases h

lemma Writes.skipSpace_append {v : Value} {cs ws : List Char} (h : Writes v cs) (hws : Spaces ws)
    (rest : List Char) : skipSpace (ws ++ cs ++ rest) = cs ++ rest := by
  obtain ⟨c, more, rfl, hc⟩ := h.begins
  rw [List.append_assoc, Json.skipSpace_append hws]
  exact skipSpace_cons hc.ne.1 _

section Texts

variable {ws : List Char}

namespace Element

lemma skipSpace_written {e : Element} (he : e.Spaced) (h : Writes e.value e.text)
    (rest : List Char) : skipSpace (e.written ++ rest) = e.text ++ (e.after ++ rest) := by
  rw [written, List.append_assoc _ e.after, h.skipSpace_append he.1]

lemma skipSpace_nil (hws : Spaces ws) (comma : Bool) (rest : List Char) :
    skipSpace (ws ++ (texts comma [] ++ rest)) = ']' :: rest := by
  rw [skipSpace_append hws]
  exact skipSpace_cons (by decide) rest

lemma skipSpace_comma (hws : Spaces ws) (e : Element) (es : List Element) (rest : List Char) :
    skipSpace (ws ++ (texts true (e :: es) ++ rest)) =
      ',' :: (e.written ++ (texts true es ++ rest)) := by
  rw [skipSpace_append hws, texts, List.append_assoc, List.append_assoc]
  exact skipSpace_cons (by decide) _

lemma skipSpace_first (hws : Spaces ws) (e : Element) (es : List Element) (rest : List Char) :
    skipSpace (ws ++ (texts false (e :: es) ++ rest)) =
      skipSpace (e.written ++ (texts true es ++ rest)) := by
  rw [skipSpace_append hws, texts, List.append_assoc, List.append_assoc]
  rfl

end Element

namespace Member

lemma skipSpace_written {m : Member} (hm : m.Spaced) (rest : List Char) :
    skipSpace (m.written ++ rest) =
      '"' :: (m.nameText ++ (m.gap ++ ':' :: (m.element.written ++ rest))) := by
  simp only [written, List.append_assoc, List.cons_append, skipSpace_append hm.1]
  exact skipSpace_cons (by decide) _

lemma skipSpace_nil (hws : Spaces ws) (comma : Bool) (rest : List Char) :
    skipSpace (ws ++ (texts comma [] ++ rest)) = '\x7d' :: rest := by
  rw [skipSpace_append hws]
  exact skipSpace_cons (by decide) rest

lemma skipSpace_comma (hws : Spaces ws) (m : Member) (ms : List Member) (rest : List Char) :
    skipSpace (ws ++ (texts true (m :: ms) ++ rest)) =
      ',' :: (m.written ++ (texts true ms ++ rest)) := by
  rw [skipSpace_append hws, texts, List.append_assoc, List.append_assoc]
  exact skipSpace_cons (by decide) _

lemma skipSpace_first (hws : Spaces ws) (m : Member) (ms : List Member) (rest : List Char) :
    skipSpace (ws ++ (texts false (m :: ms) ++ rest)) =
      skipSpace (m.written ++ (texts true ms ++ rest)) := by
  rw [skipSpace_append hws, texts, List.append_assoc, List.append_assoc]
  rfl

end Member

end Texts

end Mend.Json
