import Mathlib
import Lehce.Text.Utf8

/-!
# Bytes of texts

The bytes of a text are those of its characters, one after the other. A character is read back
from the front of its bytes, so the whole text is.
-/

namespace Lehce.Text

theorem toList_loop (bytes : ByteArray) (place : Nat) (front : List UInt8) :
    ByteArray.toList.loop bytes place front =
      front.reverse ++ bytes.data.toList.drop place := by
  fun_induction ByteArray.toList.loop bytes place front with
  | case1 place front inside ih =>
      have within : place < bytes.data.toList.length := by simpa using inside
      have byte : bytes.get! place = bytes.data.toList[place] := by
        rw [ByteArray.get!, Array.getElem_toList]
        exact getElem!_pos bytes.data place (by simpa using inside)
      rw [ih, List.drop_eq_getElem_cons within, byte]
      simp
  | case2 place front outside =>
      have behind : bytes.data.toList.length ≤ place := by simpa using outside
      simp [List.drop_eq_nil_of_le behind]

theorem length_toList_toUTF8 (text : String) : text.toUTF8.toList.length = text.utf8ByteSize := by
  rw [ByteArray.toList, toList_loop]
  simp

theorem toList_toUTF8 (text : String) :
    text.toUTF8.toList = text.toList.flatMap String.utf8EncodeChar := by
  conv_lhs => rw [← String.ofList_toList (s := text)]
  rw [String.toUTF8_eq_toByteArray, String.toByteArray_ofList, ByteArray.toList, toList_loop,
    List.utf8Encode, List.data_toByteArray]
  simp

theorem toNat_continuation (n : Nat) : (UInt8.ofNat (n % 64 + 128)).toNat = n % 64 + 128 := by
  rw [UInt8.toNat_ofNat']
  omega

theorem isContinuation_continuation (n : Nat) :
    isContinuation (UInt8.ofNat (n % 64 + 128)) = true := by
  rw [isContinuation, beq_iff_eq, toNat_continuation]
  omega

/-- A character is read back from the front of its bytes. -/
theorem leadingChar_encode (c : Char) (rest : List UInt8) :
    leadingChar (String.utf8EncodeChar c ++ rest) =
      some (c, (String.utf8EncodeChar c).length) := by
  have whole : Char.ofNat c.val.toNat = c := Char.ofNat_toNat c
  have valid : c.val.toNat < 0xd800 ∨ 0xdfff < c.val.toNat ∧ c.val.toNat < 0x110000 := c.valid
  unfold String.utf8EncodeChar
  generalize c.val.toNat = code at whole valid
  rw [← whole]
  simp only
  -- one case for each length
  split
  · have first : (UInt8.ofNat code).toNat = code := by
      rw [UInt8.toNat_ofNat']
      omega
    simp only [leadingChar, List.singleton_append, first, List.length_singleton]
    rw [if_pos (by omega)]
  · split
    · have first : (UInt8.ofNat (code / 64 % 32 + 192)).toNat = code / 64 + 192 := by
        rw [UInt8.toNat_ofNat']
        omega
      have joined : (code / 64 + 192 - 192) * 64 + (code % 64 + 128 - 128) = code := by omega
      simp only [leadingChar, List.cons_append, List.nil_append, first, toNat_continuation,
        isContinuation_continuation, Bool.true_eq_false, if_false, joined, List.length_cons,
        List.length_nil]
      rw [if_neg (by omega), if_pos (by omega)]
    · split
      · have first : (UInt8.ofNat (code / 4096 % 16 + 224)).toNat = code / 4096 + 224 := by
          rw [UInt8.toNat_ofNat']
          omega
        have joined : (code / 4096 + 224 - 224) * 4096 + (code / 64 % 64 + 128 - 128) * 64 +
            (code % 64 + 128 - 128) = code := by omega
        simp only [leadingChar, List.cons_append, List.nil_append, first, toNat_continuation,
          isContinuation_continuation, Bool.true_eq_false, if_false, joined, List.length_cons,
          List.length_nil]
        rw [if_neg (by omega), if_neg (by omega), if_pos (by omega)]
      · have first : (UInt8.ofNat (code / 262144 % 8 + 240)).toNat = code / 262144 + 240 := by
          rw [UInt8.toNat_ofNat']
          omega
        have joined : (code / 262144 + 240 - 240) * 262144 + (code / 4096 % 64 + 128 - 128) * 4096 +
            (code / 64 % 64 + 128 - 128) * 64 + (code % 64 + 128 - 128) = code := by omega
        simp only [leadingChar, List.cons_append, List.nil_append, first, toNat_continuation,
          isContinuation_continuation, Bool.true_eq_false, if_false, joined, List.length_cons,
          List.length_nil]
        rw [if_neg (by omega), if_neg (by omega), if_neg (by omega), if_pos (by omega)]

/-- Bytes that belong to a character already read are passed over. -/
theorem strictChars_skip (bytes rest : List UInt8) (chars : List Char) :
    strictChars bytes.length (bytes ++ rest) chars = strictChars 0 rest chars := by
  induction bytes with
  | nil => rfl
  | cons byte bytes ih => simpa [strictChars] using ih

theorem strictChars_encode (chars front : List Char) :
    strictChars 0 (chars.flatMap String.utf8EncodeChar) front = some (front.reverse ++ chars) := by
  induction chars generalizing front with
  | nil => simp [strictChars]
  | cons c chars ih =>
      have leading := leadingChar_encode c (chars.flatMap String.utf8EncodeChar)
      rcases List.exists_cons_of_ne_nil (String.utf8EncodeChar_ne_nil (c := c)) with
        ⟨byte, others, bytes⟩
      rw [bytes, List.cons_append] at leading
      rw [List.flatMap_cons, bytes, List.cons_append, strictChars, leading]
      simp only [List.length_cons, Nat.add_sub_cancel]
      rw [strictChars_skip, ih]
      simp

/-- A text is read back from its bytes. -/
theorem ofBytes_toUTF8 (text : String) : ofBytes? text.toUTF8.toList = some text := by
  rw [ofBytes?, toList_toUTF8, strictChars_encode]
  simp

/-- Bytes that are well formed throughout are read as they are. -/
theorem charsOfBytes_of_strictChars {skip : Nat} {bytes : List UInt8} {front chars : List Char}
    (read : strictChars skip bytes front = some chars) :
    charsOfBytes skip bytes front = chars := by
  fun_induction strictChars skip bytes front with
  | case1 skip front =>
      cases read
      cases skip <;> rfl
  | case2 skip byte rest front ih => exact ih read
  | case3 front byte rest c length leading ih =>
      rw [charsOfBytes, leading]
      exact ih read
  | case4 => cases read

theorem ofBytes_toList_toUTF8 (text : String) : ofBytes text.toUTF8.toList = text := by
  rw [ofBytes, toList_toUTF8, charsOfBytes_of_strictChars (strictChars_encode _ _)]
  simp

end Lehce.Text
