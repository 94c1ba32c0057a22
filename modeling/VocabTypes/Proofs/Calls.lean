import Mathlib.Computability.Primrec.List
import Mathlib.Data.List.Permutation
import VocabTypes.Registry.Load
import VocabTypes.Registry.Standard

-- A closed run is evaluated by `cbv`, which rewrites with the equations of `List.lookup` and
-- `Prod.snd`: the first two imports are the modules that state them.

/-!
# Calls and reachable registries

## What can be done with a registry while it is built

A registry starts out empty and is changed by calls only.  A call may be refused;
most refused calls leave the registry as it was, but a refused batch keeps what
came before the refusal.
-/

namespace VocabTypes

inductive Call where
  | insertClass (subject : Identifier) (allowString : Bool)
  | insertBuiltin (url typeName doc : String)
  | insertBooleanEnum (url trueUrl falseUrl doc : String)
  | insertDataTypeUnion (url : String) (members : List EntityId) (doc : String)
  | assert (id : EntityId) (fact : Fact)
  | addProperty (id : EntityId) (property : Property)
  | addEnumValue (id : EntityId) (value : EnumValue)
  | record (diagnostic : Diagnostic)
  | verdict (href : String) (fact : Fact)
  | insertStandard
  | load (classes : List SourceClass)

inductive Answer where
  | done
  | registered (ids : List EntityId)
  | used (flag : Bool)
  | refused (cause : Rejection)
  | notLoaded (failure : LoadFailure)

/-- Whether a call has done what it was asked for. -/
def Answer.succeeded : Answer → Bool
  | refused _ => false
  | notLoaded _ => false
  | _ => true

namespace Registry

/-!
# Performing a call
-/

/-- The registry after a registration, which keeps the old one when it is refused. -/
def registration (r : Registry) : Except Rejection (EntityId × Registry) → Registry × Answer
  | .ok (id, after) => (after, .registered [id])
  | .error cause => (r, .refused cause)

/-- The registry after a change that has nothing to answer. -/
def change (r : Registry) : Except Rejection Registry → Registry × Answer
  | .ok after => (after, .done)
  | .error cause => (r, .refused cause)

def perform (r : Registry) : Call → Registry × Answer
  | .insertClass subject allowString => r.registration (r.insertClass subject allowString)
  | .insertBuiltin url typeName doc => r.registration (r.insertBuiltin url typeName doc)
  | .insertBooleanEnum url trueUrl falseUrl doc =>
      r.registration (r.insertBooleanEnum url trueUrl falseUrl doc)
  | .insertDataTypeUnion url members doc =>
      r.registration (r.insertDataTypeUnion url members doc)
  | .assert id fact =>
      match r.assert id fact with
      | .ok (flag, after) => (after, .used flag)
      | .error cause => (r, .refused cause)
  | .addProperty id property => r.change (r.addProperty id property)
  | .addEnumValue id value => r.change (r.addEnumValue id value)
  | .record diagnostic => (r.record diagnostic, .done)
  | .verdict href fact =>
      match r.verdict href fact with
      | .ok flag => (r, .used flag)
      | .error cause => (r, .refused cause)
  | .insertStandard =>
      match r.insertStandard with
      | (after, .ok ids) => (after, .registered ids)
      | (after, .error cause) => (after, .refused cause)
  | .load classes =>
      match r.load classes with
      | (after, .ok ()) => (after, .done)
      | (after, .error failure) => (after, .notLoaded failure)

/-!
# Runs
-/

/-- The registry after some calls, whatever they answer. -/
def run (r : Registry) (calls : List Call) : Registry :=
  calls.foldl (fun r call => (r.perform call).1) r

/-- A registry that some calls make out of the empty one. -/
def Reachable (r : Registry) : Prop :=
  ∃ calls, empty.run calls = r

end Registry
end VocabTypes
