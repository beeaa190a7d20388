import CalcCycle.Feed.Basic
import CalcCycle.Feed.Record

/-! A feed held in memory. A snapshot is a copy of the current values; its token is the reading of the
clock, or the successor of the last token where the clock has not moved past it. -/

namespace CalcCycle

abbrev LiveValues := SortedMap Specification Payload

/-- The value of the specification that the requirement resolves to, else that of the least
specification that satisfies it. -/
def LiveValues.lookup (values : LiveValues) (r : Requirement) : Option Payload :=
  match values.get? r.resolve with
  | some p => some p
  | none => (values.find? fun s _ => r.satisfiedBy s).map (·.2)

structure MemoryFeed where
  current : LiveValues := .empty
  snapshots : SortedMap Token LiveValues := .empty
  last : Int := 0
  deriving Inhabited

namespace MemoryFeed

def empty : MemoryFeed := {}

def setValue (f : MemoryFeed) (s : Specification) (p : Payload) : MemoryFeed :=
  { f with current := f.current.insert s p }

def removeValue (f : MemoryFeed) (s : Specification) : Option Payload × MemoryFeed :=
  (f.current.get? s, { f with current := f.current.erase s })

def clear (f : MemoryFeed) : MemoryFeed := { f with current := .empty }

def isActive (f : MemoryFeed) (t : Token) : Bool := f.snapshots.contains t

def activeSnapshots (f : MemoryFeed) : Nat := f.snapshots.size

def takeSnapshot (f : MemoryFeed) (now : Int) : Token × MemoryFeed :=
  let token : Token := ⟨max now (f.last + 1)⟩
  (token, { f with snapshots := f.snapshots.insert token f.current, last := token.value })

def query (f : MemoryFeed) (t : Token) (r : Requirement) : Except FeedError (Option Payload) :=
  match f.snapshots.get? t with
  | some values => .ok (values.lookup r)
  | none => .error (.snapshotNotFound t)

def release (f : MemoryFeed) (t : Token) : Except FeedError Unit × MemoryFeed :=
  if f.isActive t then (.ok (), { f with snapshots := f.snapshots.erase t })
  else (.error (.snapshotNotFound t), f)

def source : Feed MemoryFeed where
  snapshot f now :=
    let (token, f) := f.takeSnapshot now
    (.ok token, f)
  query f t r := (f.query t r, f)
  release f t := f.release t

/-- Sets the value of every record, or of none if the text is not a list of records. -/
def loadJson (f : MemoryFeed) (text : String) : Except FeedError Nat × MemoryFeed :=
  match Reader.read (Reader.list LiveRecord.reader) text with
  | none => (.error (.malformed "not a list of live data records"), f)
  | some records =>
    (.ok records.length, records.foldl (fun f r => f.setValue r.specification r.payload) f)

/-- A feed that holds the records of a text and nothing else. -/
def ofJson (text : String) : Except FeedError MemoryFeed :=
  match empty.loadJson text with
  | (.ok _, f) => .ok f
  | (.error e, _) => .error e

/-- A file that cannot be read has no text. -/
def ofFile (text : Option String) : Except FeedError MemoryFeed :=
  match text with
  | none => .error (.unreadable "the file cannot be read")
  | some text => ofJson text

end MemoryFeed

end CalcCycle
