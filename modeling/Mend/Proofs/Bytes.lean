import Mathlib.Tactic.Lemma
import Mend.Text.Utf8

/-! The bytes that a text is stored in. Offsets in characters and offsets in bytes cut it at the
same places. -/
namespace Mend.Text

/-- The bytes of a text. -/
def utf8 (cs : List Char) : List UInt8 := cs.flatMap String.utf8EncodeChar

theorem utf8_append (xs ys : List Char) : utf8 (xs ++ ys) = utf8 xs ++ utf8 ys :=
  List.flatMap_append

theorem length_utf8 (cs : List Char) : (utf8 cs).length = byteLength cs := by
  induction cs with
  | nil => rfl
  | cons c cs ih =>
    simp only [utf8, List.flatMap_cons, List.length_append, String.length_utf8EncodeChar] at ih ⊢
    rw [ih]
    rfl

/-- The bytes in front of a place are those of the characters in front of it. -/
lemma take_utf8 (xs ys : List Char) : (utf8 (xs ++ ys)).take (byteLength xs) = utf8 xs := by
  rw [utf8_append, ← length_utf8, List.take_left]

lemma drop_utf8 (xs ys : List Char) : (utf8 (xs ++ ys)).drop (byteLength xs) = utf8 ys := by
  rw [utf8_append, ← length_utf8, List.drop_left]

lemma toList_loop (bs : ByteArray) (i : Nat) (read : List UInt8) :
    ByteArray.toList.loop bs i read = read.reverse ++ bs.data.toList.drop i := by
  fun_induction ByteArray.toList.loop bs i read with
  | case1 i read h ih =>
    have hi : i < bs.data.toList.length := by simpa using h
    rw [ih, List.drop_eq_getElem_cons hi]
    simp [ByteArray.get!, h]
  | case2 i read h =>
    have hi : bs.data.toList.length ≤ i := by simpa using h
    rw [List.drop_eq_nil_of_le hi, List.append_nil]

lemma toList_eq (bs : ByteArray) : bs.toList = bs.data.toList := by
  rw [ByteArray.toList, toList_loop]
  rfl

/-- What is written of a text is its bytes. -/
theorem toList_toUTF8 (text : String) : text.toUTF8.toList = utf8 text.toList := by
  have hencode : text.toByteArray = (String.ofList text.toList).toByteArray := by
    rw [String.ofList_toList]
  rw [String.toUTF8_eq_toByteArray, toList_eq, hencode]
  exact List.toList_data_toByteArray

/-- A text is read from its bytes and from no others. -/
theorem fromUTF8?_eq_some_iff {bs : List UInt8} {text : String} :
    String.fromUTF8? ⟨bs.toArray⟩ = some text ↔ bs = utf8 text.toList := by
  have hbytes : utf8 text.toList = text.toByteArray.data.toList := by
    rw [← toList_toUTF8, toList_eq, String.toUTF8_eq_toByteArray]
  rw [hbytes, String.fromUTF8?]
  constructor
  · intro h
    split at h
    · rw [← Option.some.inj h]
      rfl
    · cases h
  · intro h
    have harray : (⟨bs.toArray⟩ : ByteArray) = text.toByteArray := by
      rw [h]
    have hvalid : ByteArray.IsValidUTF8 ⟨bs.toArray⟩ := harray ▸ text.isValidUTF8
    rw [dif_pos hvalid, Option.some.injEq, ← String.toByteArray_inj]
    exact harray

end Mend.Text
