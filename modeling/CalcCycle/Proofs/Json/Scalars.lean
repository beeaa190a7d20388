import CalcCycle.Json.Numeral
import CalcCycle.Json.Printer
import Mathlib.Tactic.SplitIfs

/-! Strings and whole numbers are read from a JSON text as they were printed, whatever characters a string
has. What follows a number must not go on with it. -/

namespace CalcCycle

/-! ### Hexadecimal digits -/

namespace Hex

theorem read?_snoc (cs : List Char) (c : Char) :
    read? (cs ++ [c]) = (read? cs).bind fun n => (value? c).map (n * 16 + ·) := by
  simp [read?, List.foldlM_append]

/-- Digits that are enough for the number give it back. -/
theorem read?_fixed {width n : Nat} (h : n < pow2 (4 * width)) : read? (fixed width n) = some n := by
  induction width generalizing n with
  | zero =>
    obtain rfl : n = 0 := Nat.lt_one_iff.1 h
    rfl
  | succ width ih =>
    have hpow : pow2 (4 * (width + 1)) = pow2 (4 * width) * 2 * 2 * 2 * 2 := rfl
    rw [fixed, read?_snoc, ih (by omega), value?_digit _ (Nat.mod_lt _ (by decide))]
    simp only [Option.bind_some, Option.map_some, Option.some.injEq]
    omega

theorem length_fixed (width n : Nat) : (fixed width n).length = width := by
  induction width generalizing n with
  | zero => rfl
  | succ width ih => rw [fixed, List.length_append, ih, List.length_singleton]

end Hex

/-! ### Strings -/

namespace Document

theorem readUnits_unicode {n : Nat} (h : n < pow2 16) (rest : List Char) :
    readUnits ('\\' :: 'u' :: Hex.fixed 4 n ++ rest) =
      (readUnits rest).map fun read => (n :: read.1, read.2) := by
  have hread : Hex.read? (Hex.fixed 4 n) = some n := Hex.read?_fixed h
  have hlength := Hex.length_fixed 4 n
  match hdigits : Hex.fixed 4 n, hlength with
  | [a, b, c, d], _ =>
    rw [hdigits] at hread
    simp only [List.cons_append, List.nil_append, readUnits, hread]
    cases readUnits rest <;> rfl

theorem readUnits_plain {c : Char} (hquote : c ≠ '"') (hbackslash : c ≠ '\\') (hcontrol : ¬ c.toNat < 32)
    (rest : List Char) : readUnits (c :: rest) = (readUnits rest).map fun read => (c.toNat :: read.1, read.2) := by
  rw [readUnits.eq_def]
  split
  · exact absurd (List.cons.inj ‹_›).1 hquote
  · exact absurd (List.cons.inj ‹_›).1 hbackslash
  · exact absurd (List.cons.inj ‹_›).1 hbackslash
  · next h =>
    obtain ⟨rfl, rfl⟩ := List.cons.inj h
    simp only [hcontrol, hbackslash, or_self, if_false]
    cases readUnits rest <;> rfl
  · cases ‹_ = []›

/-- One character is read from what is printed for it. -/
theorem readUnits_escape (c : Char) (rest : List Char) :
    readUnits (Json.escape c ++ rest) = (readUnits rest).map fun read => (c.toNat :: read.1, read.2) := by
  unfold Json.escape
  split
  case h_6 hquote hbackslash hline hreturn htab =>
    split_ifs with hback hfeed hcontrol
    · simp only [List.cons_append, List.nil_append, readUnits, hback]
      cases readUnits rest <;> rfl
    · simp only [List.cons_append, List.nil_append, readUnits, hfeed]
      cases readUnits rest <;> rfl
    · exact readUnits_unicode (Nat.lt_trans hcontrol (by decide)) rest
    · exact readUnits_plain hquote hbackslash hcontrol rest
  all_goals
    simp only [List.cons_append, List.nil_append, readUnits]
    cases readUnits rest <;> rfl

theorem readUnits_escaped (cs rest : List Char) :
    readUnits (cs.flatMap Json.escape ++ '"' :: rest) = some (cs.map Char.toNat, rest) := by
  induction cs with
  | nil => simp [readUnits]
  | cons c cs ih =>
    rw [List.flatMap_cons, List.append_assoc, readUnits_escape, ih]
    rfl

/-- A character is no half of a surrogate pair. -/
theorem joinPairs_map_toNat (cs : List Char) : joinPairs (cs.map Char.toNat) = some cs := by
  induction cs with
  | nil => rfl
  | cons c cs ih =>
    have hvalid : c.toNat < 0xD800 ∨ 0xDFFF < c.toNat ∧ c.toNat < 0x110000 := c.valid
    have hhigh : ¬ (0xD800 ≤ c.toNat ∧ c.toNat < 0xDC00) := by omega
    have hlow : ¬ (0xDC00 ≤ c.toNat ∧ c.toNat < 0xE000) := by omega
    rw [List.map_cons, joinPairs.eq_def]
    simp only
    rw [if_neg hhigh, if_neg hlow, ih, Char.ofNat_toNat]
    rfl

/-- A string is read up to its closing quote. -/
theorem readString_escaped (s : String) (rest : List Char) :
    readString (s.toList.flatMap Json.escape ++ '"' :: rest) = some (some s, rest) := by
  unfold readString
  rw [readUnits_escaped]
  simp [joinPairs_map_toNat]

end Document

/-! ### Whole numbers -/

/-- A whole number as it is written. -/
def Numeral.ofInt (i : Int) : Numeral where
  negative := decide (i < 0)
  whole := Nat.toDigits 10 i.natAbs
  fraction := []
  exponent := none

namespace Numeral

theorem naturalOf_toDigits (n : Nat) : naturalOf (Nat.toDigits 10 n) = n := by
  have hread := Nat.ofDigitChars_toDigits (b := 10) (n := n) (by decide) (by decide)
  unfold Nat.ofDigitChars at hread
  unfold naturalOf digitValue
  simpa only [Nat.mul_comm] using hread

/-- A whole number that fits 64 bits, with or without a sign, means itself. -/
theorem value?_ofInt {i : Int} (h : -(pow2 63 : Int) ≤ i ∧ i < pow2 64) : (ofInt i).value? = some (.integer i) := by
  have hvalue : naturalOf (ofInt i).whole = i.natAbs := naturalOf_toDigits _
  have hwhole : (ofInt i).isWhole = true := rfl
  unfold value?
  simp only [hvalue, hwhole]
  by_cases hneg : i < 0
  · have hnegative : (ofInt i).negative = true := decide_eq_true hneg
    have habs : i.natAbs ≠ 0 ∧ i.natAbs ≤ pow2 63 := by omega
    simp only [hnegative, habs.1, habs.2, not_true_eq_false, false_and, and_false, if_false, ne_eq,
      not_false_eq_true, and_self, if_true]
    congr 2
    omega
  · have hnegative : (ofInt i).negative = false := decide_eq_false hneg
    have habs : i.natAbs < pow2 64 := by omega
    simp only [hnegative, habs, Bool.false_eq_true, not_false_eq_true, and_self, if_true]
    congr 2
    omega

end Numeral

namespace Document

/-- The text does not go on with a number. -/
def EndsNumber (rest : List Char) : Prop :=
  ∀ c ∈ rest.head?, isDigit c = false ∧ c ≠ '.' ∧ c ≠ 'e' ∧ c ≠ 'E'

theorem isDigit_of_mem_toDigits {n : Nat} {c : Char} (h : c ∈ Nat.toDigits 10 n) : isDigit c = true := by
  have hdigit := Nat.isDigit_of_mem_toDigits (by decide) (by decide) h
  simpa [Char.isDigit, isDigit, Char.le_def] using hdigit

theorem toDigits_ne_nil (n : Nat) : Nat.toDigits 10 n ≠ [] := List.ne_nil_of_length_pos Nat.length_toDigits_pos

/-- The text of a whole number begins with a digit or a sign. -/
theorem integerText_eq_cons (i : Int) :
    ∃ c cs, Json.integerText i = c :: cs ∧ (isDigit c = true ∨ c = '-') := by
  unfold Json.integerText
  split_ifs
  · exact ⟨_, _, rfl, Or.inr rfl⟩
  · obtain ⟨c, cs, hdigits⟩ := List.exists_cons_of_ne_nil (toDigits_ne_nil i.natAbs)
    have hmem : c ∈ Nat.toDigits 10 i.natAbs := by simp [hdigits]
    exact ⟨c, cs, hdigits, Or.inl (isDigit_of_mem_toDigits hmem)⟩

theorem digitsThen_append {digits rest : List Char} (hdigits : ∀ c ∈ digits, isDigit c = true)
    (hrest : EndsNumber rest) : digitsThen (digits ++ rest) = (digits, rest) := by
  unfold digitsThen
  rw [List.takeWhile_append_of_pos hdigits, List.dropWhile_append_of_pos hdigits]
  cases rest with
  | nil => simp
  | cons c rest =>
    obtain ⟨hc, -⟩ := hrest c rfl
    simp [hc]

/-- A positive number begins with a digit that is not zero. -/
theorem toDigits_eq_cons {n : Nat} (h : 0 < n) :
    ∃ c digits, Nat.toDigits 10 n = c :: digits ∧ c ≠ '0' := by
  induction n using Nat.strongRecOn with
  | _ n ih =>
    by_cases hlt : n < 10
    · rw [Nat.toDigits_of_lt_base hlt]
      have hall : ∀ k < 10, 0 < k → Nat.digitChar k ≠ '0' := by decide
      exact ⟨_, [], rfl, hall n hlt h⟩
    · obtain ⟨c, digits, hdigits, hc⟩ := ih (n / 10) (by omega) (by omega)
      rw [Nat.toDigits_of_base_le (by decide) (by omega), hdigits]
      exact ⟨c, _, rfl, hc⟩

theorem readWhole_toDigits (n : Nat) {rest : List Char} (hrest : EndsNumber rest) :
    readWhole (Nat.toDigits 10 n ++ rest) = some (Nat.toDigits 10 n, rest) := by
  by_cases hzero : n = 0
  · subst hzero
    rfl
  obtain ⟨c, digits, hdigits, hc⟩ := toDigits_eq_cons (Nat.pos_of_ne_zero hzero)
  have hthen : digitsThen (Nat.toDigits 10 n ++ rest) = (Nat.toDigits 10 n, rest) :=
    digitsThen_append (fun d hd => isDigit_of_mem_toDigits hd) hrest
  rw [hdigits] at hthen ⊢
  rw [readWhole]
  · rw [hthen]
    rfl
  · intro more he
    exact hc (List.cons.inj he).1

theorem readFraction_none {rest : List Char} (hrest : EndsNumber rest) : readFraction rest = some ([], rest) := by
  unfold readFraction
  split
  · exact absurd rfl (hrest '.' rfl).2.1
  · rfl

theorem readExponent_none {rest : List Char} (hrest : EndsNumber rest) : readExponent rest = some (none, rest) := by
  unfold readExponent
  split
  · next c rest =>
    obtain ⟨-, -, he, hE⟩ := hrest c rfl
    rw [if_neg (not_or.2 ⟨he, hE⟩)]
  · rfl

/-- A whole number is read up to where it ends. -/
theorem readNumeral_integerText (i : Int) {rest : List Char} (hrest : EndsNumber rest) :
    readNumeral (Json.integerText i ++ rest) = some (.ofInt i, rest) := by
  have hwhole := readWhole_toDigits i.natAbs hrest
  have hfraction := readFraction_none hrest
  have hexponent := readExponent_none hrest
  unfold Json.integerText readNumeral Numeral.ofInt
  split_ifs with hneg
  · simp [hneg, hwhole, hfraction, hexponent]
  · split
    next negative digits hsign =>
      split at hsign
      · next more hminus =>
        -- a digit is no sign
        obtain ⟨c, cs, hdigits⟩ := List.exists_cons_of_ne_nil (toDigits_ne_nil i.natAbs)
        have hmem : c ∈ Nat.toDigits 10 i.natAbs := by simp [hdigits]
        rw [hdigits] at hminus
        rw [(List.cons.inj hminus).1] at hmem
        exact absurd (isDigit_of_mem_toDigits hmem) (by decide)
      · cases hsign
        simp [hneg, hwhole, hfraction, hexponent]

end Document

end CalcCycle
