import Mathlib.Tactic.SplitIfs

/-! The order of texts is the order of their UTF-8 bytes. The bytes of a character come before those of a greater
one whatever follows them, since the first byte tells how many there are and the others have six bits each,
the highest first. -/

namespace CalcCycle

def utf8 (s : String) : List UInt8 := s.toUTF8.data.toList

theorem utf8_eq (s : String) : utf8 s = s.toList.flatMap String.utf8EncodeChar := by
  rw [utf8, String.toUTF8_eq_toByteArray, ← String.utf8Encode_toList, List.utf8Encode, List.toList_data_toByteArray]

theorem utf8EncodeChar_lt {c d : Char} (h : c < d) (l l' : List UInt8) :
    String.utf8EncodeChar c ++ l < String.utf8EncodeChar d ++ l' := by
  have hlt : c.val.toNat < d.val.toNat := h
  have hd : d.val.toNat < 0x110000 := by
    rcases d.valid with hd | hd
    · exact Nat.lt_trans hd (by decide)
    · exact hd.2
  unfold String.utf8EncodeChar
  generalize c.val.toNat = m at hlt ⊢
  generalize d.val.toNat = n at hlt hd ⊢
  dsimp only
  -- one case for each pair of lengths
  split_ifs
  all_goals
    simp only [List.cons_append, List.cons_lt_cons_iff, UInt8.lt_iff_toNat_lt, ← UInt8.toNat_inj, UInt8.toNat_ofNat']
    simp (disch := omega) only [Nat.mod_eq_of_lt]
    omega

theorem flatMap_utf8EncodeChar_lt {a b : List Char} (h : a < b) :
    a.flatMap String.utf8EncodeChar < b.flatMap String.utf8EncodeChar := by
  induction h with
  | nil =>
    rw [List.flatMap_nil, List.flatMap_cons]
    cases hc : String.utf8EncodeChar _ with
    | nil => exact absurd hc String.utf8EncodeChar_ne_nil
    | cons byte rest => exact List.nil_lt_cons _ _
  | rel hlt => exact utf8EncodeChar_lt hlt _ _
  | cons _ ih => exact List.append_left_lt ih

theorem utf8_lt_iff {a b : String} : utf8 a < utf8 b ↔ a < b := by
  have hmono : ∀ {a b : String}, a < b → utf8 a < utf8 b := by
    intro a b h
    rw [utf8_eq, utf8_eq]
    exact flatMap_utf8EncodeChar_lt h
  refine ⟨fun h => ?_, hmono⟩
  rcases Std.lt_trichotomy a b with hlt | rfl | hgt
  · exact hlt
  · exact absurd h (List.lt_irrefl _)
  · exact absurd h (List.lt_asymm (hmono hgt))

theorem compare_eq_lt_iff_utf8 {a b : String} : compare a b = .lt ↔ utf8 a < utf8 b :=
  compareOfLessAndEq_eq_lt.trans utf8_lt_iff.symm

end CalcCycle
