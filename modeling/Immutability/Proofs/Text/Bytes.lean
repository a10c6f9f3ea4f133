import Mathlib.Data.List.Basic
import Mathlib.Data.String.Basic

/-! Texts and their UTF-8 bytes.

    The bytes of a text are those of its characters one after the other. They tell the text, and they
    are ordered as the texts are, since the bytes of the lesser of two characters come first whatever
    follows them. -/

namespace Immutability

open String

/-! ### Bytes of texts -/

theorem toList_loop_eq (bytes : ByteArray) (i : Nat) (acc : List UInt8) :
    ByteArray.toList.loop bytes i acc = acc.reverse ++ bytes.data.toList.drop i := by
  fun_induction ByteArray.toList.loop bytes i acc with
  | case1 i acc h ih =>
    have hi : i < bytes.data.toList.length := by simpa using h
    have hb : bytes.get! i = bytes.data.toList[i] := by
      simp [ByteArray.get!, getElem!_pos bytes.data i h]
    rw [ih, List.drop_eq_getElem_cons hi, List.reverse_cons, hb, List.append_assoc,
      List.singleton_append]
  | case2 i acc h =>
    have hi : bytes.data.toList.length ≤ i := by simpa using h
    rw [List.drop_eq_nil_of_le hi, List.append_nil]

theorem toList_eq_data (bytes : ByteArray) : bytes.toList = bytes.data.toList := by
  rw [ByteArray.toList, toList_loop_eq]
  simp

theorem bytes_append (s t : String) :
    (s ++ t).toUTF8.toList = s.toUTF8.toList ++ t.toUTF8.toList := by
  simp [toList_eq_data, String.toUTF8]

/-- Texts with the same bytes are the same. -/
theorem bytes_inj {s t : String} : s.toUTF8.toList = t.toUTF8.toList ↔ s = t := by
  rw [toList_eq_data, toList_eq_data, Array.toList_inj]
  refine ⟨fun h => String.toByteArray_inj.1 (ByteArray.ext h), ?_⟩
  rintro rfl
  rfl

theorem bytes_join (lines : List String) :
    (String.join lines).toUTF8.toList = lines.flatMap fun line => line.toUTF8.toList := by
  induction lines with
  | nil => simp [toList_eq_data, String.toUTF8]
  | cons line lines ih =>
    rw [List.flatMap_cons, ← ih, ← bytes_append]
    congr 2
    exact String.toList_inj.1 (by simp [String.toList_join])

/-- The bytes of a text are those of its characters. -/
theorem bytes_eq_flatMap (s : String) : s.toUTF8.toList = s.toList.flatMap utf8EncodeChar := by
  have hs : s.toUTF8 = (ofList s.toList).toByteArray := by rw [ofList_toList, toUTF8]
  rw [hs, toByteArray_ofList, List.utf8Encode, toList_eq_data]
  simp

/-! ### The order of bytes -/

theorem cons_ofNat_lt {a b : Nat} {as bs : List UInt8} (ha : a < 256) (hb : b < 256) :
    UInt8.ofNat a :: as < UInt8.ofNat b :: bs ↔ a < b ∨ a = b ∧ as < bs := by
  rw [List.cons_lt_cons_iff, UInt8.lt_iff_toNat_lt, ← UInt8.toNat_inj, UInt8.toNat_ofNat',
    UInt8.toNat_ofNat', Nat.mod_eq_of_lt ha, Nat.mod_eq_of_lt hb]

/-- The bytes of the lesser of two characters come first, whatever follows them. -/
theorem utf8EncodeChar_append_lt {c d : Char} (h : c < d) (bs cs : List UInt8) :
    utf8EncodeChar c ++ bs < utf8EncodeChar d ++ cs := by
  have hlt : c.val.toNat < d.val.toNat := h
  have hd : d.val.toNat < 0x110000 := by
    have hv : d.val.toNat.isValidChar := d.valid
    rcases hv with hv | hv <;> omega
  -- the later bytes are digits in base 64, so the quotients are written as repeated ones
  have h2 (n : Nat) : n / 4096 = n / 64 / 64 := by omega
  have h3 (n : Nat) : n / 262144 = n / 64 / 64 / 64 := by omega
  unfold utf8EncodeChar
  simp only [h2, h3]
  generalize c.val.toNat = m at *
  generalize d.val.toNat = n at *
  split_ifs <;> simp only [List.cons_append, List.nil_append] <;>
    (repeat rw [cons_ofNat_lt (by omega) (by omega)]) <;> omega

theorem flatMap_utf8EncodeChar_lt : ∀ {cs ds : List Char}, cs < ds →
    cs.flatMap utf8EncodeChar < ds.flatMap utf8EncodeChar
  | _, [], h => absurd h (List.not_lt_nil _)
  | [], d :: ds, _ => by
    have hd : utf8EncodeChar d ≠ [] := by simp
    obtain ⟨b, bs, hb⟩ := List.exists_cons_of_ne_nil hd
    rw [List.flatMap_cons, hb]
    exact List.nil_lt_cons ..
  | c :: cs, d :: ds, h => by
    rw [List.flatMap_cons, List.flatMap_cons]
    rcases List.cons_lt_cons_iff.1 h with hc | ⟨rfl, hs⟩
    · exact utf8EncodeChar_append_lt hc _ _
    · exact List.append_left_lt (flatMap_utf8EncodeChar_lt hs)

/-- Texts are ordered as their bytes are. -/
theorem bytes_lt_iff {s t : String} : s.toUTF8.toList < t.toUTF8.toList ↔ s < t := by
  have hlt {s t : String} (h : s < t) : s.toUTF8.toList < t.toUTF8.toList := by
    rw [bytes_eq_flatMap, bytes_eq_flatMap]
    exact flatMap_utf8EncodeChar_lt (lt_iff_toList_lt.1 h)
  refine ⟨fun h => ?_, hlt⟩
  rcases lt_trichotomy s t with hs | rfl | hs
  · exact hs
  · exact absurd h (List.lt_irrefl _)
  · exact absurd h (List.lt_asymm (hlt hs))

end Immutability
