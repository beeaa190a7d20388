import CalcCycle.Feed.Token
import CalcCycle.Value.Payload

/-! A cache holds the values computed for one view at one snapshot. A value is written once, and a
released cache is empty and refuses every access. -/

namespace CalcCycle

inductive CacheError
  | released (view : String) (token : Token)
  | duplicateValue (specification : Specification)
  deriving DecidableEq, Inhabited

def CacheError.message : CacheError → String
  | released view token =>
    "computation cache for view " ++ view ++ " at " ++ token.text ++ " has been released"
  | duplicateValue s => "value already written for " ++ s.text

/-- The name of the error for programs. -/
def CacheError.code : CacheError → String
  | released .. => "Released"
  | duplicateValue .. => "DuplicateValue"

structure Cache where
  view : String
  token : Token
  values : SortedMap Specification Payload := .empty
  isReleased : Bool := false
  deriving Inhabited

namespace Cache

def ensureLive (c : Cache) : Except CacheError Unit :=
  if c.isReleased then .error (.released c.view c.token) else .ok ()

def put (c : Cache) (v : Computed) : Except CacheError Cache := do
  c.ensureLive
  if c.values.contains v.specification then throw (.duplicateValue v.specification)
  pure { c with values := c.values.insert v.specification v.payload }

def get (c : Cache) (s : Specification) : Except CacheError (Option Computed) := do
  c.ensureLive
  pure ((c.values.get? s).map fun p => ⟨s, p⟩)

def contains (c : Cache) (s : Specification) : Except CacheError Bool := do
  c.ensureLive
  pure (c.values.contains s)

def size (c : Cache) : Nat := c.values.size

def release (c : Cache) : Cache := { c with values := .empty, isReleased := true }

end Cache

end CalcCycle
