/-! Orders by a key. -/

namespace CalcCycle

/-- Where equal keys belong to equal elements, elements that compare as equal are equal. -/
theorem lawfulEqCmp_compareOn {α β : Type} [Ord β] [Std.LawfulEqOrd β] {key : α → β}
    (injective : ∀ {a b}, key a = key b → a = b) : Std.LawfulEqCmp (compareOn key) where
  compare_self := Std.ReflOrd.compare_self
  eq_of_compare h := injective (Std.LawfulEqOrd.eq_of_compare h)

end CalcCycle
