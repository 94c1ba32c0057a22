import VocabTypes.Entity
import VocabTypes.Registry.Rejection

/-!
# The registry

## A table of entities

A registry holds the entities in the order in which they were registered,
together with the diagnostics gathered on the way.  The position of an entity is
its id, no two entities share an IRI, and an index leads from the IRI of an entity
to its position.
-/

namespace VocabTypes

/-!
# Diagnostics
-/

inductive Severity where
  | info
  | warning
deriving DecidableEq

/-- A remark about an entity, named by its IRI, that did not stop the work. -/
structure Diagnostic where
  severity : Severity
  entity : String
  message : String
deriving DecidableEq

/-!
# The table
-/

structure Registry where
  entities : List Entity
  /-- The position of each entity by its IRI, the latest registration first. -/
  index : List (String × EntityId)
  diagnostics : List Diagnostic
deriving DecidableEq

namespace Registry

def empty : Registry :=
  { entities := [], index := [], diagnostics := [] }

def size (r : Registry) : Nat :=
  r.entities.length

def entity? (r : Registry) (id : EntityId) : Option Entity :=
  r.entities[id]?

def find? (r : Registry) (href : String) : Option EntityId :=
  r.index.lookup href

def resolve (r : Registry) (ids : List EntityId) : List Entity :=
  ids.filterMap r.entity?

def append (r : Registry) (e : Entity) : Registry :=
  { r with entities := r.entities ++ [e], index := (e.href, r.size) :: r.index }

def modify (r : Registry) (id : EntityId) (f : Entity → Entity) : Registry :=
  { r with entities := r.entities.modify id f }

def record (r : Registry) (diagnostic : Diagnostic) : Registry :=
  { r with diagnostics := r.diagnostics ++ [diagnostic] }

/-!
# Reading the table after a change

What the table holds at a position is told by the change that was made.
-/

theorem lt_size_iff (r : Registry) (id : EntityId) :
    id < r.size ↔ ∃ e, r.entity? id = some e := by
  constructor
  · intro h
    exact ⟨r.entities[id], List.getElem?_eq_getElem h⟩
  · intro hissued
    rcases hissued with ⟨e, he⟩
    obtain ⟨h, _⟩ := List.getElem?_eq_some_iff.mp he
    exact h

@[simp] theorem size_modify (r : Registry) (id : EntityId) (f : Entity → Entity) :
    (r.modify id f).size = r.size :=
  List.length_modify f r.entities id

theorem entity?_modify (r : Registry) (id : EntityId) (f : Entity → Entity) (other : EntityId) :
    (r.modify id f).entity? other =
      if id = other then (r.entity? other).map f else r.entity? other := by
  rw [entity?, modify, List.getElem?_modify]
  split <;> simp [entity?]

@[simp] theorem size_record (r : Registry) (diagnostic : Diagnostic) :
    (r.record diagnostic).size = r.size :=
  rfl

@[simp] theorem entity?_record (r : Registry) (diagnostic : Diagnostic) (id : EntityId) :
    (r.record diagnostic).entity? id = r.entity? id :=
  rfl

@[simp] theorem find?_modify (r : Registry) (id : EntityId) (f : Entity → Entity)
    (href : String) : (r.modify id f).find? href = r.find? href :=
  rfl

@[simp] theorem find?_record (r : Registry) (diagnostic : Diagnostic) (href : String) :
    (r.record diagnostic).find? href = r.find? href :=
  rfl

@[simp] theorem size_append (r : Registry) (e : Entity) : (r.append e).size = r.size + 1 := by
  simp [size, append]

theorem entity?_append (r : Registry) (e : Entity) (id : EntityId) :
    (r.append e).entity? id = if id = r.size then some e else r.entity? id := by
  unfold entity? append size
  rw [List.getElem?_append]
  by_cases old : id < r.entities.length
  · rw [if_pos old, if_neg (Nat.ne_of_lt old)]
  · rw [if_neg old, List.getElem?_singleton, List.getElem?_eq_none (Nat.le_of_not_lt old)]
    by_cases last : id = r.entities.length
    · simp [last]
    · have beyond : r.entities.length < id :=
        Nat.lt_of_le_of_ne (Nat.le_of_not_lt old) (Ne.symm last)
      rw [if_neg (Nat.sub_ne_zero_of_lt beyond), if_neg last]

theorem find?_append (r : Registry) (e : Entity) (href : String) :
    (r.append e).find? href = if href = e.href then some r.size else r.find? href := by
  unfold find? append
  rw [List.lookup_cons]
  by_cases same : href = e.href
  · simp [same]
  · simp [same, beq_eq_false_iff_ne.mpr same]

/-!
# Registration

A new entity is checked and then takes the next free position.
-/

/-- The union of data types; there is at most one. -/
def dataTypeUnion? (r : Registry) : Option Entity :=
  r.entities.find? fun e => e.kind.isDataTypeUnion

/-- Whether an id stands for an entity that a union of data types may have as a member. -/
def isScalar (r : Registry) (id : EntityId) : Bool :=
  (r.entity? id).any fun e => e.kind.isScalar

/-- How an id is written in a message: by IRI, or by number when nothing is registered there. -/
def label (r : Registry) (id : EntityId) : String :=
  match r.entity? id with
  | some e => e.href
  | none => s!"#{id}"

/-- A union of data types has to be the first one, over scalars only. -/
def checkUnion (r : Registry) (href : String) (members : List EntityId) : Except Rejection Unit :=
  match r.dataTypeUnion? with
  | some existing => .error (.duplicateDataTypeUnion href existing.href)
  | none =>
      match members.find? fun id => !r.isScalar id with
      | some id => .error (.invalidDataTypeMember href (r.label id))
      | none => .ok ()

def insert (r : Registry) (subject : Identifier) (kind : Kind) (allowString : Bool) :
    Except Rejection (EntityId × Registry) :=
  match r.find? subject.href with
  | some _ => .error (.duplicateEntity subject.href)
  | none => .ok (r.size, r.append (Entity.bare subject kind allowString))

/-- What a successful insertion has done. -/
theorem insert_eq_ok_iff {r after : Registry} {subject : Identifier} {kind : Kind}
    {allowString : Bool} {id : EntityId} :
    r.insert subject kind allowString = .ok (id, after) ↔
      r.find? subject.href = none ∧ id = r.size ∧
        after = r.append (Entity.bare subject kind allowString) := by
  unfold insert
  cases r.find? subject.href with
  | none =>
      constructor
      · intro h
        cases h
        exact ⟨rfl, rfl, rfl⟩
      · intro hfree
        rcases hfree with ⟨_, rfl, rfl⟩
        rfl
  | some taken => simp

def insertClass (r : Registry) (subject : Identifier) (allowString : Bool) :
    Except Rejection (EntityId × Registry) :=
  r.insert subject .rdfsClass allowString

def insertBuiltin (r : Registry) (url typeName doc : String) :
    Except Rejection (EntityId × Registry) :=
  r.insert (.ofUrl url) (.builtin typeName doc) false

def insertBooleanEnum (r : Registry) (url trueUrl falseUrl doc : String) :
    Except Rejection (EntityId × Registry) :=
  r.insert (.ofUrl url) (.booleanEnum trueUrl falseUrl doc) false

def insertDataTypeUnion (r : Registry) (url : String) (members : List EntityId) (doc : String) :
    Except Rejection (EntityId × Registry) :=
  match r.checkUnion url members with
  | .error cause => .error cause
  | .ok () => r.insert (.ofUrl url) (.dataTypeUnion members doc) false

/-!
# The global order

Entities are listed scalars first, then the union over them, then the classes,
each group by identifier.
-/

def inOrder (r : Registry) : List (Entity × EntityId) :=
  r.entities.zipIdx.mergeSort fun a b => (compare a.1 b.1).isLE

def idsInOrder (r : Registry) : List EntityId :=
  r.inOrder.map Prod.snd

def entitiesInOrder (r : Registry) : List Entity :=
  r.inOrder.map Prod.fst

def compareIds? (r : Registry) (a b : EntityId) : Option Ordering :=
  match r.entity? a, r.entity? b with
  | some x, some y => some (compare x y)
  | _, _ => none

end Registry

end VocabTypes
