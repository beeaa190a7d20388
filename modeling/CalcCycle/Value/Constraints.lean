import CalcCycle.Sorted.Map
import CalcCycle.Sorted.Set

/-! Constraints on the properties of a value: for each constrained property the set of values that
are acceptable, where an empty set asks only that the property is there. -/

namespace CalcCycle

abbrev Properties := SortedMap String String

abbrev Constraints := SortedMap String (SortedSet String)

namespace Constraints

/-- Widens the acceptable values of a property; a first mention constrains it. -/
def accept (c : Constraints) (name : String) (values : List String) : Constraints :=
  c.insert name (((c.get? name).getD .empty).insertAll values)

def satisfiedBy (c : Constraints) (p : Properties) : Bool :=
  c.entries.all fun (name, allowed) =>
    match p.get? name with
    | some value => allowed.isEmpty || allowed.contains value
    | none => false

/-- The least acceptable value of each property; a property without acceptable values is left
out. -/
def resolve (c : Constraints) : Properties where
  entries := c.entries.filterMap fun (name, allowed) => allowed.least?.map fun v => (name, v)
  increasing := by
    refine List.pairwise_filterMap.2 (c.increasing.imp ?_)
    rintro ⟨a, s⟩ ⟨b, t⟩ hab x hx y hy
    obtain ⟨_, _, rfl⟩ := Option.map_eq_some_iff.1 hx
    obtain ⟨_, _, rfl⟩ := Option.map_eq_some_iff.1 hy
    exact hab

end Constraints

end CalcCycle
