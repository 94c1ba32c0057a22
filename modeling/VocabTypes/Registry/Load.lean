import VocabTypes.Registry.Assertion

/-!
# Loading classes

## Whole classes in one step

A source delivers each class with its facts, properties and enumeration values.
All facts are judged before the class is registered, so a class that is refused
leaves nothing behind.  Parents and replacements have to come before the classes
that name them.
-/

namespace VocabTypes

structure SourceClass where
  subject : Identifier
  allowString : Bool
  facts : List Fact
  properties : List Property
  enumValues : List EnumValue
deriving DecidableEq

/-- What was being done with a class when it was refused. -/
inductive LoadStep where
  | facts
  | registration
deriving DecidableEq

/-- The class that was refused, named by its IRI, and why. -/
structure LoadFailure where
  step : LoadStep
  href : String
  cause : Rejection
deriving DecidableEq

namespace LoadFailure

def context (failure : LoadFailure) : String :=
  match failure.step with
  | .facts => s!"Failed to ingest facts for {failure.href}"
  | .registration => s!"Failed to register {failure.href}"

def message (failure : LoadFailure) : String :=
  s!"{failure.context}: {failure.cause.message}"

end LoadFailure

namespace Registry

/-- The verdicts on some facts, or why the first that would be refused would be refused. -/
def verdicts (r : Registry) (href : String) : List Fact → Except Rejection (List Bool)
  | [] => .ok []
  | fact :: facts =>
      match r.verdict href fact with
      | .error cause => .error cause
      | .ok used =>
          match r.verdicts href facts with
          | .error cause => .error cause
          | .ok rest => .ok (used :: rest)

def factUnused (href : String) (fact : Fact) : Diagnostic :=
  { severity := .info
    entity := href
    message := s!"unhandled fact {fact.predicate}" }

/-- Asserts the facts judged to be understood in turn, and remarks on the others. -/
def assertAll (r : Registry) (id : EntityId) (href : String) :
    List (Fact × Bool) → Registry × Except Rejection Unit
  | [] => (r, .ok ())
  | (fact, true) :: facts =>
      match r.assert id fact with
      | .error cause => (r, .error cause)
      | .ok (_, r) => r.assertAll id href facts
  | (fact, false) :: facts => (r.record (factUnused href fact)).assertAll id href facts

/-- Appends the properties and enumeration values that a source gives for a class. -/
def addMembers (r : Registry) (id : EntityId) (c : SourceClass) : Registry :=
  r.modify id fun e =>
    { e with
      properties := e.properties ++ c.properties
      enumValues := e.enumValues ++ c.enumValues }

/-- Loads one class: judges its facts, registers it, asserts the facts and adds its members. -/
def loadClass (r : Registry) (c : SourceClass) : Registry × Except LoadFailure Unit :=
  let href := c.subject.href
  match r.verdicts href c.facts with
  | .error cause => (r, .error ⟨.facts, href, cause⟩)
  | .ok used =>
      match r.insertClass c.subject c.allowString with
      | .error cause => (r, .error ⟨.registration, href, cause⟩)
      | .ok (id, r) =>
          match r.assertAll id href (c.facts.zip used) with
          | (r, .error cause) => (r, .error ⟨.facts, href, cause⟩)
          | (r, .ok ()) => (r.addMembers id c, .ok ())

/-- Loads classes in turn up to the first that is refused; those before it stay. -/
def load (r : Registry) : List SourceClass → Registry × Except LoadFailure Unit
  | [] => (r, .ok ())
  | c :: classes =>
      match r.loadClass c with
      | (r, .error failure) => (r, .error failure)
      | (r, .ok ()) => r.load classes

end Registry
end VocabTypes
