/-! JSON values. Members of an object come in a list; a value read from a text has them sorted by
name. -/

namespace CalcCycle

/-- Whole numbers and doubles are kept apart: `1` and `1.0` are different. -/
inductive JsonNumber
  | integer (i : Int)
  | double (x : Float)
  deriving Inhabited

inductive Json
  | null
  | bool (b : Bool)
  | number (n : JsonNumber)
  | string (s : String)
  | array (items : List Json)
  | object (members : List (String × Json))
  deriving Inhabited

/-- Doubles compare as numbers: the two zeros are equal, and no value is undefined. -/
def JsonNumber.same : JsonNumber → JsonNumber → Bool
  | integer i, integer j => i == j
  | double x, double y => x == y
  | _, _ => false

namespace Json

mutual
def same : Json → Json → Bool
  | null, null => true
  | bool a, bool b => a == b
  | number a, number b => a.same b
  | string a, string b => a == b
  | array a, array b => sameItems a b
  | object a, object b => sameMembers a b
  | _, _ => false

def sameItems : List Json → List Json → Bool
  | [], [] => true
  | a :: as, b :: bs => same a b && sameItems as bs
  | _, _ => false

def sameMembers : List (String × Json) → List (String × Json) → Bool
  | [], [] => true
  | (k, a) :: as, (l, b) :: bs => k == l && same a b && sameMembers as bs
  | _, _ => false
end

def natural (n : Nat) : Json := .number (.integer n)

def double (x : Float) : Json := .number (.double x)

/-- The member of a name, if the value is an object that has one. -/
def member? (name : String) : Json → Option Json
  | object members => members.lookup name
  | _ => none

def items : Json → List Json
  | array items => items
  | _ => []

mutual
/-- Changes all strings but the names of members. -/
def mapStrings (f : String → String) : Json → Json
  | string s => string (f s)
  | array items => array (mapItems f items)
  | object members => object (mapMembers f members)
  | v => v

def mapItems (f : String → String) : List Json → List Json
  | [] => []
  | v :: rest => mapStrings f v :: mapItems f rest

def mapMembers (f : String → String) : List (String × Json) → List (String × Json)
  | [] => []
  | (k, v) :: rest => (k, mapStrings f v) :: mapMembers f rest
end

/-- An alternative with content: an object whose only member is named for the alternative. -/
def tagged (name : String) (content : Json) : Json := .object [(name, content)]

end Json

end CalcCycle
