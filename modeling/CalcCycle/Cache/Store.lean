import CalcCycle.Cache.Basic

/-! All caches ever made, by handle, and those that are open for a view and a snapshot. Handles stay
valid after a release, so a holder of an old handle meets the released cache and not its successor. -/

namespace CalcCycle

structure CacheHandle where
  index : Nat
  deriving DecidableEq, Repr, Inhabited

structure CacheStore where
  caches : List Cache := []
  registered : List ((String × Token) × CacheHandle) := []
  deriving Inhabited

namespace CacheStore

def empty : CacheStore := {}

def get? (s : CacheStore) (h : CacheHandle) : Option Cache := s.caches[h.index]?

def find? (s : CacheStore) (view : String) (token : Token) : Option CacheHandle :=
  s.registered.lookup (view, token)

/-- A new cache that is not open under its view and snapshot. -/
def standalone (s : CacheStore) (view : String) (token : Token) : CacheHandle × CacheStore :=
  (⟨s.caches.length⟩, { s with caches := s.caches ++ [{ view, token }] })

/-- The cache open for the view and the snapshot, or a new one. -/
def acquire (s : CacheStore) (view : String) (token : Token) : CacheHandle × CacheStore :=
  match s.find? view token with
  | some h => (h, s)
  | none =>
    let (h, s) := s.standalone view token
    (h, { s with registered := s.registered ++ [((view, token), h)] })

def update (s : CacheStore) (h : CacheHandle) (c : Cache) : CacheStore :=
  { s with caches := s.caches.set h.index c }

def read (s : CacheStore) (h : CacheHandle) (spec : Specification) :
    Except CacheError (Option Computed) :=
  match s.get? h with
  | some c => c.get spec
  | none => .ok none

def write (s : CacheStore) (h : CacheHandle) (v : Computed) : Except CacheError CacheStore :=
  match s.get? h with
  | some c => (c.put v).map (s.update h)
  | none => .ok s

/-- Closes and empties the cache open for the view and the snapshot; `false` if there is none. -/
def release (s : CacheStore) (view : String) (token : Token) : Bool × CacheStore :=
  match s.find? view token with
  | none => (false, s)
  | some h =>
    let s := match s.get? h with
      | some c => s.update h c.release
      | none => s
    (true, { s with registered := s.registered.filter fun e => e.1 != (view, token) })

def active (s : CacheStore) : Nat := s.registered.length

end CacheStore

end CalcCycle
