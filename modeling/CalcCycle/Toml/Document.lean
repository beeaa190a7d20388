/-! TOML documents as trees, and how keys, table headers and dotted keys build them. A table that is
only mentioned on the way to another one is implicit until a header defines it, and a table made by
dotted keys belongs to the section that made it. -/

namespace CalcCycle.Toml

mutual
inductive Value
  | string (s : String)
  | integer (i : Int)
  | float
  | bool (b : Bool)
  | dateTime
  | array (items : List Value)
  | inlineTable (entries : List (String × Item))

inductive Item
  | value (v : Value)
  | table (implicit dotted : Bool) (entries : List (String × Item))
  | tables (elements : List (List (String × Item)))
end

abbrev Entries := List (String × Item)

structure Table where
  implicit : Bool := false
  dotted : Bool := false
  entries : Entries := []

namespace Table

def toItem (t : Table) : Item := .table t.implicit t.dotted t.entries

def get? (t : Table) (key : String) : Option Item := t.entries.lookup key

def put (t : Table) (key : String) (item : Item) : Table :=
  { t with entries := t.entries.filter (·.1 != key) ++ [(key, item)] }

def changeLast (f : Entries → Option Entries) : List Entries → Option (List Entries)
  | [] => none
  | [e] => (f e).map ([·])
  | e :: rest => (changeLast f rest).map (e :: ·)

/-- Changes the table at the end of a path. Tables on the way are made as needed; of an array of tables
the last element is meant. Dotted keys must not lead into a table that has a definition. -/
def changeAt (dotted : Bool) (f : Table → Option Table) : List String → Table → Option Table
  | [], t => f t
  | key :: path, t =>
    match t.get? key with
    | none => do
      let child ← changeAt dotted f path { implicit := true, dotted }
      pure (t.put key child.toItem)
    | some (.value _) => none
    | some (.tables elements) => do
      let elements ← changeLast
        (fun entries => (changeAt dotted f path { entries }).map (·.entries)) elements
      pure (t.put key (.tables elements))
    | some (.table childImplicit childDotted entries) =>
      if dotted ∧ ¬ childImplicit then none
      else do
        let child ← changeAt dotted f path ⟨childImplicit, childDotted, entries⟩
        pure (t.put key child.toItem)

/-- A key with the path in front of it, and its value. -/
structure Assignment where
  path : List String
  key : String
  value : Value

/-- A key is new, and dotted keys do not mix with the other ways to make a table. -/
def assign (t : Table) (a : Assignment) : Option Table :=
  let add := fun (u : Table) =>
    if u.dotted = a.path.isEmpty then none
    else
      match u.get? a.key with
      | some _ => none
      | none => some (u.put a.key (.value a.value))
  t.changeAt true add a.path

def assignAll (t : Table) (as : List Assignment) : Option Table := as.foldlM assign t

end Table

structure Header where
  path : List String
  key : String
  /-- The section adds an element to an array of tables. -/
  isElement : Bool

structure Section where
  header : Header
  assignments : List Table.Assignment

namespace Section

def define (s : Section) (parent : Table) : Option Table := do
  let start ← match parent.get? s.header.key with
    | none => some []
    | some (.table true false entries) => some entries
    | some _ => none
  let t ← ({ entries := start } : Table).assignAll s.assignments
  pure (parent.put s.header.key t.toItem)

def append (s : Section) (parent : Table) : Option Table := do
  let elements ← match parent.get? s.header.key with
    | none => some []
    | some (.tables elements) => some elements
    | some _ => none
  let t ← ({} : Table).assignAll s.assignments
  pure (parent.put s.header.key (.tables (elements ++ [t.entries])))

def add (root : Table) (s : Section) : Option Table :=
  root.changeAt false (if s.header.isElement then s.append else s.define) s.header.path

end Section

/-- The table of a document: the keys before the first header, and the sections in turn. -/
def assemble (top : List Table.Assignment) (sections : List Section) : Option Table := do
  let root ← ({} : Table).assignAll top
  sections.foldlM Section.add root

end CalcCycle.Toml
