import VocabTypes.Fact
import VocabTypes.Registry.Ancestry

/-!
# Assertions

## Telling a registry about its entities

A fact is first turned into a change of its entity, which is where it may be
refused, and the change is then applied.  The verdict on a fact stops after the
first of these steps, so it is what asserting the fact would give, without the
effect.
-/

namespace VocabTypes

/-- What a fact changes in its entity once the terms that it names have been found. -/
inductive Change where
  | comment (text : String)
  | parent (id : EntityId)
  | replacement (id : EntityId)
deriving DecidableEq

namespace Registry

/-!
# The verdict on a fact
-/

/-- Whether a parent for the entity known by `href`, which may be unregistered, closes a cycle. -/
def closesCycle (r : Registry) (href : String) (parent : EntityId) : Bool :=
  (r.find? href).any fun id => r.subsumes id parent

/-- The change that a statement about the entity known by `href` amounts to. -/
def changeOf (r : Registry) (href : String) : Statement → Except Rejection Change
  | .comment text => .ok (.comment text)
  | .subclassOf parent =>
      match r.find? parent.href with
      | none => .error (.unresolvedParent href parent.href)
      | some id =>
          if r.closesCycle href id then .error (.inheritanceCycle href parent.href)
          else .ok (.parent id)
  | .supersededBy target =>
      match r.find? target.href with
      | none => .error (.unresolvedSupersession href target.href)
      | some id => .ok (.replacement id)

/-- The change that a fact amounts to, if it is one that the class model understands. -/
def change? (r : Registry) (href : String) (fact : Fact) : Except Rejection (Option Change) :=
  match fact.statement? with
  | none => .ok none
  | some statement =>
      match r.changeOf href statement with
      | .error cause => .error cause
      | .ok change => .ok (some change)

/-- Whether a fact about the entity known by `href` would be used, or why it would be refused. -/
def verdict (r : Registry) (href : String) (fact : Fact) : Except Rejection Bool :=
  match r.change? href fact with
  | .error cause => .error cause
  | .ok change => .ok change.isSome

/-!
# The effect of a fact
-/

/-- A later comment replaces an earlier one. -/
def setComment (r : Registry) (id : EntityId) (text : String) : Registry :=
  r.modify id fun e => { e with comment := some text }

def commentReplaced (e : Entity) : Diagnostic :=
  { severity := .warning
    entity := e.href
    message := "duplicate comment; previous value overwritten" }

/-- A parent and its child learn of one another. -/
def link (r : Registry) (child parent : EntityId) : Registry :=
  let r := r.modify child fun e => { e with parents := e.parents ++ [parent] }
  r.modify parent fun e => { e with children := e.children ++ [child] }

def addReplacement (r : Registry) (id target : EntityId) : Registry :=
  r.modify id fun e => { e with replacements := e.replacements ++ [target] }

/-- Applies a change to the entity `e` at position `id`. -/
def apply (r : Registry) (id : EntityId) (e : Entity) : Change → Registry
  | .comment text =>
      let r := r.setComment id text
      if e.comment.isSome then r.record (commentReplaced e) else r
  | .parent parent => r.link id parent
  | .replacement target => r.addReplacement id target

@[simp] theorem size_setComment (r : Registry) (id : EntityId) (text : String) :
    (r.setComment id text).size = r.size :=
  size_modify r id _

@[simp] theorem find?_setComment (r : Registry) (id : EntityId) (text href : String) :
    (r.setComment id text).find? href = r.find? href :=
  rfl

@[simp] theorem size_link (r : Registry) (child parent : EntityId) :
    (r.link child parent).size = r.size := by
  simp [link]

@[simp] theorem find?_link (r : Registry) (child parent : EntityId) (href : String) :
    (r.link child parent).find? href = r.find? href :=
  rfl

@[simp] theorem size_addReplacement (r : Registry) (id target : EntityId) :
    (r.addReplacement id target).size = r.size :=
  size_modify r id _

@[simp] theorem find?_addReplacement (r : Registry) (id target : EntityId) (href : String) :
    (r.addReplacement id target).find? href = r.find? href :=
  rfl

/--
Asserts a fact about the entity at a position.

The answer says whether the fact was one that the class model understands; any
other fact, and a refused one, changes nothing.
-/
def assert (r : Registry) (id : EntityId) (fact : Fact) : Except Rejection (Bool × Registry) :=
  match r.entity? id with
  | none => .error (.unissuedId id)
  | some e =>
      match r.change? e.href fact with
      | .error cause => .error cause
      | .ok none => .ok (false, r)
      | .ok (some change) => .ok (true, r.apply id e change)

/-!
# Members
-/

def addProperty (r : Registry) (id : EntityId) (property : Property) : Except Rejection Registry :=
  if id < r.size then
    .ok (r.modify id fun e => { e with properties := e.properties ++ [property] })
  else
    .error (.unissuedId id)

def addEnumValue (r : Registry) (id : EntityId) (value : EnumValue) : Except Rejection Registry :=
  if id < r.size then
    .ok (r.modify id fun e => { e with enumValues := e.enumValues ++ [value] })
  else
    .error (.unissuedId id)

end Registry
end VocabTypes
