import CalcCycle.Text.Hex

/-! Identifiers of 128 bits in hexadecimal: hyphenated in groups of 8, 4, 4, 4 and 12 digits. -/

namespace CalcCycle

structure Uuid where
  value : Nat
  deriving DecidableEq, Inhabited

namespace Uuid

def groups : List Nat := [8, 4, 4, 4, 12]

/-- Cuts into pieces of the given lengths. -/
def cut : List Nat → List Char → List (List Char)
  | [], _ => []
  | n :: ns, cs => cs.take n :: cut ns (cs.drop n)

def text (u : Uuid) : String := String.ofList (['-'].intercalate (cut groups (Hex.fixed 32 u.value)))

/-- The digits of the hyphenated form, if the hyphens are where they belong. -/
def readGroups : List Nat → List Char → Option (List Char)
  | [], _ => none
  | [n], cs => if cs.length = n then some cs else none
  | n :: ns, cs =>
    match cs.drop n with
    | '-' :: rest => (readGroups ns rest).map (cs.take n ++ ·)
    | _ => none

def ofDigits (cs : List Char) : Option Uuid := (Hex.read? cs).map Uuid.mk

def urn : List Char := "urn:uuid:".toList

/-- Plain, hyphenated, hyphenated in braces, or hyphenated as a URN; letters in either case. -/
def parse (s : String) : Option Uuid :=
  let cs := s.toList
  if cs.length = 32 then ofDigits cs
  else if cs.length = 36 then (readGroups groups cs).bind ofDigits
  else if cs.length = 38 ∧ cs.head? = some '{' ∧ cs.getLast? = some '}' then
    (readGroups groups ((cs.drop 1).take 36)).bind ofDigits
  else if cs.length = 45 ∧ (cs.take 9).map Char.toLower = urn then
    (readGroups groups (cs.drop 9)).bind ofDigits
  else none

end Uuid

end CalcCycle
