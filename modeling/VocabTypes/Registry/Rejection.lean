/-!
# Rejections

## Why a registry refuses

Registering an entity or adding a fact fails for one of these causes, and leaves
the registry as it was.
-/

namespace VocabTypes

/-- Why a registry refuses; entities are named by IRI. -/
inductive Rejection where
  | unresolvedParent (entity parent : String)
  | unresolvedSupersession (entity target : String)
  | inheritanceCycle (entity parent : String)
  | duplicateEntity (href : String)
  | duplicateDataTypeUnion (href existing : String)
  | invalidDataTypeMember (union member : String)
  | unissuedId (id : Nat)
deriving DecidableEq

namespace Rejection

def message : Rejection → String
  | unresolvedParent entity parent =>
      s!"{entity}: unresolved parent {parent}"
  | unresolvedSupersession entity target =>
      s!"{entity}: unresolved supersession target {target}"
  | inheritanceCycle entity parent =>
      s!"{entity}: subclass of {parent} would create an inheritance cycle"
  | duplicateEntity href =>
      s!"{href}: entity registered twice"
  | duplicateDataTypeUnion href existing =>
      s!"{href}: data-type union already registered as {existing}"
  | invalidDataTypeMember union member =>
      s!"{union}: member {member} is not a builtin"
  | unissuedId id =>
      s!"#{id}: no such entity"

end Rejection

end VocabTypes
