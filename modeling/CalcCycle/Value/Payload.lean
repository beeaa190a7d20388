import CalcCycle.Json.Basic
import CalcCycle.Number.Decimal
import CalcCycle.Value.Requirement

/-! The content of a value, and a value with the specification it answers. -/

namespace CalcCycle

inductive Payload
  | decimal (d : Decimal)
  | float (x : Float)
  | text (s : String)
  | series (points : List (Float × Float))
  | json (v : Json)
  deriving Inhabited

namespace Payload

def kind : Payload → String
  | decimal _ => "decimal"
  | float _ => "float"
  | text _ => "text"
  | series _ => "series"
  | json _ => "json"

def decimal? : Payload → Option Decimal
  | decimal d => some d
  | _ => none

def float? : Payload → Option Float
  | float x => some x
  | _ => none

def series? : Payload → Option (List (Float × Float))
  | series points => some points
  | _ => none

def samePoints : List (Float × Float) → List (Float × Float) → Bool
  | [], [] => true
  | (x, y) :: as, (u, v) :: bs => x == u && y == v && samePoints as bs
  | _, _ => false

/-- Doubles compare as numbers, so an undefined one differs from itself; decimals compare by value. -/
def same : Payload → Payload → Bool
  | decimal a, decimal b => a.same b
  | float a, float b => a == b
  | text a, text b => a == b
  | series a, series b => samePoints a b
  | json a, json b => a.same b
  | _, _ => false

end Payload

structure Computed where
  specification : Specification
  payload : Payload
  deriving Inhabited

end CalcCycle
