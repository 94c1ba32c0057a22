import VocabTypes.Identifier

/-!
# Entities

## Classes, data types and their links

An entity is a registered term: a class, or one of three forms of builtin data
type.  Entities point at one another by the position at which they were
registered, and they are listed by group first and by identifier within it.
-/

namespace VocabTypes

/-!
# Members of a class

A class carries properties, which become the fields of its record type, and may
list individual values, which become the members of an enumeration.
-/

/-- A property of a class; a value of it belongs to one of the ranges. -/
structure Property where
  id : Identifier
  ranges : List Identifier
  comment : Option String
  deprecated : Bool
deriving DecidableEq

/-- An individual that a class lists as one of its values. -/
structure EnumValue where
  id : Identifier
  comment : Option String
deriving DecidableEq

/-!
# Kinds of entities
-/

/-- The position at which an entity was registered, counted from zero. -/
abbrev EntityId := Nat

/-- What an entity is, with what only that form of entity knows. -/
inductive Kind where
  | rdfsClass
  | builtin (typeName doc : String)
  | booleanEnum (trueUrl falseUrl doc : String)
  | dataTypeUnion (members : List EntityId) (doc : String)
deriving DecidableEq

namespace Kind

/-- Every entity that is no class is a builtin data type. -/
def isBuiltin : Kind → Bool
  | rdfsClass => false
  | _ => true

/-- Scalars are the builtins that a union of data types may have as members. -/
def isScalar : Kind → Bool
  | builtin .. | booleanEnum .. => true
  | _ => false

def isDataTypeUnion : Kind → Bool
  | dataTypeUnion .. => true
  | _ => false

/-- Scalars are listed before the union over them, and data types before classes. -/
def rank : Kind → Nat
  | builtin .. | booleanEnum .. => 0
  | dataTypeUnion .. => 1
  | rdfsClass => 2

end Kind

/-!
# Registered terms
-/

/-- A registered term with everything that has been said about it. -/
structure Entity where
  subject : Identifier
  kind : Kind
  allowString : Bool
  comment : Option String
  parents : List EntityId
  children : List EntityId
  replacements : List EntityId
  properties : List Property
  enumValues : List EnumValue
deriving DecidableEq

namespace Entity

/-- An entity about which nothing has been said yet. -/
def bare (subject : Identifier) (kind : Kind) (allowString : Bool) : Entity :=
  { subject, kind, allowString, comment := none, parents := [], children := [],
    replacements := [], properties := [], enumValues := [] }

def name (e : Entity) : String :=
  e.subject.name

def href (e : Entity) : String :=
  e.subject.href

@[simp] theorem href_bare (subject : Identifier) (kind : Kind) (allowString : Bool) :
    (bare subject kind allowString).href = subject.href :=
  rfl

/-- A root has no parent. -/
def isRoot (e : Entity) : Bool :=
  e.parents.isEmpty

/-- An entity is deprecated as soon as it has a replacement. -/
def deprecated (e : Entity) : Bool :=
  !e.replacements.isEmpty

def propertiesInOrder (e : Entity) : List Property :=
  Identifier.sortOn Property.id e.properties

def enumValuesInOrder (e : Entity) : List EnumValue :=
  Identifier.sortOn EnumValue.id e.enumValues

/-- Entities are ordered by the rank of their kind, and by identifier within a rank. -/
instance : Ord Entity :=
  ⟨compareLex (compareOn fun e => e.kind.rank) (compareOn subject)⟩

end Entity

end VocabTypes
