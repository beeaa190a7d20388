import CalcCycle.Failure
import CalcCycle.Json.Printer
import CalcCycle.Text.Blank

/-! Settings of the engine. -/

namespace CalcCycle

structure Config where
  /-- Zero stands for as many workers as the machine has processors. -/
  workers : Nat := 0
  /-- The names of the workers begin with it. -/
  workerName : String := "meridian-worker"
  maxLoggedMissing : Nat := 50
  containCrashes : Bool := true
  deriving DecidableEq, Inhabited

namespace Config

def minimal : Config := { workers := 2, maxLoggedMissing := 10 }

def withWorkers (c : Config) (n : Nat) : Config := { c with workers := n }

def validate (c : Config) : Except Failure Unit :=
  if allBlank c.workerName then .error (.configuration "thread_name_prefix must not be empty")
  else .ok ()

/-- The number of workers on a machine with the given number of processors. -/
def effectiveWorkers (c : Config) (processors : Nat) : Nat :=
  if c.workers > 0 then c.workers else max processors 1

theorem effectiveWorkers_pos (c : Config) (processors : Nat) : 0 < c.effectiveWorkers processors := by
  unfold effectiveWorkers
  split <;> omega

def fields : List String :=
  ["worker_threads", "thread_name_prefix", "max_logged_missing_live_data", "catch_function_panics"]

def toJson (c : Config) : Json :=
  .object (fields.zip
    [.natural c.workers, .string c.workerName, .natural c.maxLoggedMissing, .bool c.containCrashes])

def reader : Reader Config := fun l d => do
  let dflt : Config := {}
  let p ← Reader.parts fields l d
  pure
    { workers := ← p.withDefault 0 dflt.workers (Reader.natural 64)
      workerName := ← p.withDefault 1 dflt.workerName Reader.string
      maxLoggedMissing := ← p.withDefault 2 dflt.maxLoggedMissing (Reader.natural 64)
      containCrashes := ← p.withDefault 3 dflt.containCrashes Reader.bool }

end Config

end CalcCycle
