import Mathlib

/-!
# The order of texts is the order of their bytes

Texts are compared by the code points of their characters. In UTF-8 this is the order of the bytes
as well: the bytes of a character stand before those of a greater one, because a longer encoding
begins with a greater byte and encodings of one length are compared digit by digit.

* `utf8EncodeChar_append_lt`: the first differing character decides, whatever follows.
* `lt_iff_utf8_lt`: one text is less than another if and only if its bytes are.
-/

namespace AllocScript

open String (utf8EncodeChar)

theorem char_lt_max (c : Char) : c.val.toNat < 0x110000 := by
  have h := c.valid
  simp only [UInt32.isValidChar, Nat.isValidChar] at h
  omega

/-- The bytes of a character lie before those of a greater one, whatever follows either. -/
theorem utf8EncodeChar_append_lt {c d : Char} (h : c < d) (l r : List UInt8) :
    utf8EncodeChar c ++ l < utf8EncodeChar d ++ r := by
  have hcd : c.val.toNat < d.val.toNat := h
  have hd := char_lt_max d
  unfold utf8EncodeChar
  dsimp only
  generalize c.val.toNat = m at hcd ⊢
  generalize d.val.toNat = n at hcd hd ⊢
  -- One case for each pair of lengths; the greater character has no shorter encoding.
  split_ifs <;> first
    | omega
    | (simp (disch := omega) only [List.cons_append, List.nil_append, List.cons_lt_cons_iff,
        UInt8.lt_iff_toNat_lt, ← UInt8.toNat_inj, UInt8.toNat_ofNat', Nat.mod_eq_of_lt]
       omega)

theorem utf8_lt_of_lt {cs ds : List Char} (h : cs < ds) :
    cs.flatMap utf8EncodeChar < ds.flatMap utf8EncodeChar := by
  induction h with
  | nil =>
    rename_i d ds
    obtain ⟨b, bs, hb⟩ := List.exists_cons_of_ne_nil (String.utf8EncodeChar_ne_nil (c := d))
    rw [List.flatMap_cons, hb]
    exact List.Lex.nil
  | cons _ ih =>
    rw [List.flatMap_cons, List.flatMap_cons]
    exact List.Lex.append_left _ ih _
  | rel hlt =>
    rw [List.flatMap_cons, List.flatMap_cons]
    exact utf8EncodeChar_append_lt hlt _ _

theorem utf8_eq_flatMap (s : String) : s.toUTF8.data.toList = s.toList.flatMap utf8EncodeChar := by
  show s.toByteArray.data.toList = _
  rw [← String.ofList_toList (s := s), String.toByteArray_ofList]
  simp [List.utf8Encode]

/-- **The order of texts is the order of their bytes.** -/
theorem lt_iff_utf8_lt {s t : String} : s < t ↔ s.toUTF8.data.toList < t.toUTF8.data.toList := by
  have mono {s t : String} (h : s < t) : s.toUTF8.data.toList < t.toUTF8.data.toList := by
    rw [utf8_eq_flatMap, utf8_eq_flatMap]
    exact utf8_lt_of_lt (String.lt_iff_toList_lt.1 h)
  refine ⟨mono, fun h => ?_⟩
  by_contra hle
  by_cases hlt : t < s
  · exact List.lt_asymm h (mono hlt)
  · rw [String.le_antisymm (String.not_lt.1 hlt) (String.not_lt.1 hle)] at h
    exact List.lt_irrefl _ h

end AllocScript
