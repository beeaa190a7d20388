import CalcCycle.Feed.Basic
import CalcCycle.Feed.Memory

/-! A feed that plays a script, for rehearsals: it hands out the listed tokens in turn, with repeats
if the list has them, and refuses what it is told to refuse. Its values are not frozen. -/

namespace CalcCycle

structure ScriptedFeed where
  values : LiveValues := .empty
  /-- Tokens still to be handed out. -/
  upcoming : List Token := []
  /-- Tokens handed out and not released, in order. -/
  held : List Token := []
  /-- Names whose queries fail. -/
  mute : List String := []
  /-- Tokens whose release is refused. -/
  stuck : List Token := []
  deriving Inhabited

namespace ScriptedFeed

def setValue (f : ScriptedFeed) (s : Specification) (p : Payload) : ScriptedFeed :=
  { f with values := f.values.insert s p }

def removeValue (f : ScriptedFeed) (s : Specification) : Option Payload × ScriptedFeed :=
  (f.values.get? s, { f with values := f.values.erase s })

def takeSnapshot (f : ScriptedFeed) : Except FeedError Token × ScriptedFeed :=
  match f.upcoming with
  | token :: rest => (.ok token, { f with upcoming := rest, held := f.held ++ [token] })
  | [] => (.error (.sourceNotAvailable "feed down"), f)

def query (f : ScriptedFeed) (t : Token) (r : Requirement) : Except FeedError (Option Payload) :=
  if ¬ f.held.contains t then .error (.snapshotNotFound t)
  else if f.mute.contains r.name then .error (.sourceNotAvailable r.text)
  else .ok (f.values.get? r.resolve)

def release (f : ScriptedFeed) (t : Token) : Except FeedError Unit × ScriptedFeed :=
  if f.stuck.contains t then (.error (.sourceNotAvailable "release refused"), f)
  else if f.held.contains t then (.ok (), { f with held := f.held.erase t })
  else (.error (.snapshotNotFound t), f)

def source : Feed ScriptedFeed where
  snapshot f _ := f.takeSnapshot
  query f t r := (f.query t r, f)
  release f t := f.release t

end ScriptedFeed

end CalcCycle
