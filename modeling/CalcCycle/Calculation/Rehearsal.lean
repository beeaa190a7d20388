import CalcCycle.Calculation.Basic

/-! Calculations with a prescribed behaviour, to rehearse a model before the real ones are there. -/

namespace CalcCycle

inductive Behaviour
  /-- Zero plus all doubles among the inputs, plus one. -/
  | sum
  | count
  | fail
  | fault (f : Fault)
  | crashLiteral
  | crashNamed
  | crashSilent
  | produceNothing
  | undeclared
  | outputs (vs : List Computed)
  /-- Passes on one input, if it is of the given kind. -/
  | require (s : Specification) (kind : Option String)
  /-- Lists the inputs with their kinds. -/
  | describe
  | context
  | cancel
  | releaseCache

structure Rehearsal where
  name : String
  requires : List Requirement
  results : List Specification
  applicable : Option TargetKind
  behaviour : Behaviour

namespace Rehearsal

def all (r : Rehearsal) (p : Payload) : Outcome := .values (r.results.map fun s => ⟨s, p⟩)

def total (inputs : Inputs) : Float := (inputs.values.filterMap Payload.float?).foldl (· + ·) 0.0 + 1.0

def pass (r : Rehearsal) (inputs : Inputs) (s : Specification) (kind : Option String) : Outcome :=
  match Inputs.require inputs s with
  | .error f => .fault f
  | .ok p =>
    match kind with
    | some k => if p.kind = k then r.all p else .fault (.unexpectedPayload s k)
    | none => r.all p

def description (inputs : Inputs) : String :=
  ";".intercalate (inputs.entries.map fun (s, p) => s.text ++ ":" ++ p.kind)

def contextText (c : CallContext) (t : Target) : String :=
  "view=" ++ c.view ++ " " ++ c.token.text ++ " job=" ++ toString c.job ++ " target=" ++ t.text

def reply (r : Rehearsal) (c : CallContext) (t : Target) (inputs : Inputs) : Reply :=
  match r.behaviour with
  | .sum => ⟨r.all (.float (total inputs)), []⟩
  | .count => ⟨r.all (.float (Float.ofNat inputs.size)), []⟩
  | .fail => ⟨.fault (.calculation (r.name ++ " failed")), []⟩
  | .fault f => ⟨.fault f, []⟩
  | .crashLiteral => ⟨.crash (some "literal panic"), []⟩
  | .crashNamed => ⟨.crash (some (r.name ++ " blew up")), []⟩
  | .crashSilent => ⟨.crash none, []⟩
  | .produceNothing => ⟨.values [], []⟩
  | .undeclared => ⟨.values [⟨⟨"Undeclared", t, .empty⟩, .float 0.0⟩], []⟩
  | .outputs vs => ⟨.values vs, []⟩
  | .require s kind => ⟨r.pass inputs s kind, []⟩
  | .describe => ⟨r.all (.text (description inputs)), []⟩
  | .context => ⟨r.all (.text (contextText c t)), []⟩
  | .cancel => ⟨r.all (.float (total inputs)), [.cancelCycle]⟩
  | .releaseCache => ⟨r.all (.float (total inputs)), [.releaseCache]⟩

def toCalculation (r : Rehearsal) : Calculation where
  name := r.name
  appliesTo t := match r.applicable with
    | some k => t.kind == k
    | none => true
  requirements _ := r.requires
  results _ := r.results
  call := r.reply

end Rehearsal

end CalcCycle
