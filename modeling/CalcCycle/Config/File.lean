import CalcCycle.Config
import CalcCycle.Toml.Reader

/-! Settings as they stand in a TOML file. Keys that are no settings are passed over. -/

namespace CalcCycle.Config

def natural? : Toml.Item → Option Nat
  | .value (.integer i) => if 0 ≤ i then some i.toNat else none
  | _ => none

def string? : Toml.Item → Option String
  | .value (.string s) => some s
  | _ => none

def bool? : Toml.Item → Option Bool
  | .value (.bool b) => some b
  | _ => none

/-- The setting under a key, or the one given if the key is not there. -/
def settingOr (t : Toml.Table) (key : String) (dflt : α) (read : Toml.Item → Option α) : Option α :=
  match t.get? key with
  | some item => read item
  | none => some dflt

def ofTable (t : Toml.Table) : Option Config := do
  let dflt : Config := {}
  pure
    { workers := ← settingOr t "worker_threads" dflt.workers natural?
      workerName := ← settingOr t "thread_name_prefix" dflt.workerName string?
      maxLoggedMissing := ← settingOr t "max_logged_missing_live_data" dflt.maxLoggedMissing natural?
      containCrashes := ← settingOr t "catch_function_panics" dflt.containCrashes bool? }

/-- Why a file gives no settings. -/
inductive FileError
  | unreadable
  | malformed
  /-- The file is in order but its settings are refused. -/
  | refused (f : Failure)
  deriving DecidableEq

def FileError.failure : FileError → Failure
  | unreadable => .configuration "the file cannot be read"
  | malformed => .configuration "the file does not hold valid settings"
  | refused f => f

def ofToml (text : String) : Except FileError Config :=
  match (Toml.parse text).bind ofTable with
  | none => .error .malformed
  | some c =>
    match c.validate with
    | .ok () => .ok c
    | .error f => .error (.refused f)

/-- A file that cannot be read has no text. -/
def ofFile (text : Option String) : Except FileError Config :=
  match text with
  | none => .error .unreadable
  | some text => ofToml text

end CalcCycle.Config
