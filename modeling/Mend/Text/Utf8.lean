/-! Offsets in the UTF-8 form of a text. -/
namespace Mend.Text

def byteLength (cs : List Char) : Nat := cs.foldr (fun c n => c.utf8Size + n) 0

/-- The number of bytes in front of a character; an offset past the end counts as the end. -/
def byteOffset (cs : List Char) (offset : Nat) : Nat := byteLength (cs.take offset)

/-- The character a byte belongs to; a byte past the end counts as the end. -/
def charOffset : List Char → Nat → Nat
  | [], _ => 0
  | c :: cs, b => if b < c.utf8Size then 0 else charOffset cs (b - c.utf8Size) + 1

@[simp] theorem byteOffset_zero (cs : List Char) : byteOffset cs 0 = 0 := by
  simp [byteOffset, byteLength]

@[simp] theorem byteOffset_cons_succ (c : Char) (cs : List Char) (n : Nat) :
    byteOffset (c :: cs) (n + 1) = c.utf8Size + byteOffset cs n := by
  simp [byteOffset, byteLength]

theorem charOffset_byteOffset (cs : List Char) (o : Nat) :
    charOffset cs (byteOffset cs o) = min o cs.length := by
  induction cs generalizing o with
  | nil => simp [charOffset]
  | cons c cs ih =>
    cases o with
    | zero => simp [charOffset, Char.utf8Size_pos]
    | succ n => simp [charOffset, ih]

end Mend.Text
