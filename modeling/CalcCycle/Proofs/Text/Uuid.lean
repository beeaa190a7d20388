import CalcCycle.Proofs.Json.Scalars
import CalcCycle.Text.Uuid
import Mathlib.Algebra.GroupWithZero.Nat

/-! An identifier of 128 bits is read back from its text. -/

namespace CalcCycle.Uuid

/-- The first group stands in front of a hyphen and the other groups. -/
theorem hyphenated_cons_cons (n m : Nat) (ns : List Nat) (cs : List Char) :
    ['-'].intercalate (cut (n :: m :: ns) cs) =
      cs.take n ++ '-' :: ['-'].intercalate (cut (m :: ns) (cs.drop n)) := by
  rw [cut, cut, List.intercalate_cons_cons, List.append_assoc, List.singleton_append]

/-- The hyphens are one fewer than the groups. -/
theorem length_hyphenated {n : Nat} {ns : List Nat} {cs : List Char} (h : cs.length = n + ns.sum) :
    (['-'].intercalate (cut (n :: ns) cs)).length = cs.length + ns.length := by
  induction ns generalizing n cs with
  | nil => simp [cut, h]
  | cons m ns ih =>
    rw [List.sum_cons] at h
    have hrest : (['-'].intercalate (cut (m :: ns) (cs.drop n))).length = (cs.drop n).length + ns.length :=
      ih (by rw [List.length_drop]; omega)
    rw [hyphenated_cons_cons, List.length_append, List.length_cons, hrest, List.length_take, List.length_drop,
      List.length_cons]
    omega

/-- The digits come back from their groups. -/
theorem readGroups_hyphenated {n : Nat} {ns : List Nat} {cs : List Char} (h : cs.length = n + ns.sum) :
    readGroups (n :: ns) (['-'].intercalate (cut (n :: ns) cs)) = some cs := by
  induction ns generalizing n cs with
  | nil =>
    simp only [List.sum_nil, Nat.add_zero] at h
    simp [cut, readGroups, ← h]
  | cons m ns ih =>
    rw [List.sum_cons] at h
    have hrest : readGroups (m :: ns) (['-'].intercalate (cut (m :: ns) (cs.drop n))) = some (cs.drop n) :=
      ih (by rw [List.length_drop]; omega)
    have hfirst : (cs.take n).length = n := List.length_take_of_le (by omega)
    rw [hyphenated_cons_cons]
    simp [readGroups, List.drop_left' hfirst, List.take_left' hfirst, hrest]

theorem parse_text {u : Uuid} (h : u.value < pow2 128) : parse u.text = some u := by
  have hdigits : (Hex.fixed 32 u.value).length = 8 + [4, 4, 4, 12].sum := Hex.length_fixed 32 u.value
  have hlength : u.text.toList.length = 36 := by
    rw [text, String.toList_ofList, groups, length_hyphenated hdigits, hdigits]
    rfl
  have hread : readGroups groups u.text.toList = some (Hex.fixed 32 u.value) := by
    rw [text, String.toList_ofList]
    exact readGroups_hyphenated hdigits
  have hvalue : ofDigits (Hex.fixed 32 u.value) = some u := by rw [ofDigits, Hex.read?_fixed h, Option.map_some]
  unfold parse
  rw [if_neg (by omega), if_pos hlength, hread, Option.bind_some, hvalue]

end CalcCycle.Uuid
