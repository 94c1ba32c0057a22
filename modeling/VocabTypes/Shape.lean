import VocabTypes.Namespace
import VocabTypes.Registry.Ancestry
import VocabTypes.TypeExpr.Basic

/-!
# Shapes of classes

## From an entity to its types

A class has a base type, made of its own fields and the base types of its parents,
and a public type, which also takes in the classes below it.  The types of other
classes enter by name only.
-/

namespace VocabTypes

/-!
# Names
-/

namespace Entity

/-- The name of the base type; a builtin is its own base. -/
def nameOfBase (e : Entity) : String :=
  if e.kind.isBuiltin then e.name else e.name ++ "Base"

def nameOfEnum (e : Entity) : String :=
  e.name ++ "Enum"

end Entity

namespace TypeExpr

/-- The name under which a bare string is admitted. -/
def string : TypeExpr :=
  reference "string"

/-- A type put together from the parts that are there; the empty record when there are none. -/
def both : Option TypeExpr → Option TypeExpr → TypeExpr
  | some first, some second => intersection [first, second]
  | some only, none => only
  | none, some only => only
  | none, none => record []

end TypeExpr

/-!
# Fields
-/

namespace Property

def distinctRanges (p : Property) : List Identifier :=
  (Identifier.sortOn (fun range => range) p.ranges).eraseReps

/-- The type of a property's values: the union of its ranges. -/
def valueType (p : Property) : TypeExpr :=
  match p.distinctRanges with
  | [] => .reference "never"
  | [range] => .reference range.name
  | ranges => .union (ranges.map fun range => .reference range.name)

def documentation (p : Property) : Option String :=
  match p.comment, p.deprecated with
  | some comment, true => some (comment ++ "\n@deprecated")
  | none, true => some "@deprecated"
  | comment, false => comment

/-- Whether a property becomes a field. -/
def isKept (o : Options) (p : Property) : Bool :=
  !(o.skipDeprecatedProperties && p.deprecated)

def field (o : Options) (p : Property) : Field :=
  { name := o.context.shorten p.id
    optional := true
    type := p.valueType
    comment := p.documentation }

end Property

namespace Entity

def identityField (o : Options) : Field :=
  .mayHave o.idField .string

/-- The field that tells which class an instance belongs to. -/
def classField (o : Options) (e : Entity) : Field :=
  .mustHave o.typeField (.literal (o.context.shorten e.subject))

/-- The fields that an entity has by itself; only roots bring the identifier. -/
def ownFields (o : Options) (e : Entity) : List Field :=
  (if e.isRoot then [identityField o] else []) ++
    ((e.propertiesInOrder.filter fun p => p.isKept o).map fun p => p.field o)

def ownRecord? (o : Options) (e : Entity) : Option TypeExpr :=
  match e.ownFields o with
  | [] => none
  | fields => some (.record fields)

end Entity

/-!
# Types
-/

namespace Registry

/-- The base types of the parents, taken together. -/
def parentBase? (r : Registry) (e : Entity) : Option TypeExpr :=
  match r.resolve e.parents with
  | [] => none
  | [parent] => some (.reference parent.nameOfBase)
  | parents => some (.intersection (parents.map fun parent => .reference parent.nameOfBase))

/-- The type that instances of an entity and of everything below it share. -/
def baseShape (r : Registry) (o : Options) (e : Entity) : TypeExpr :=
  .both (r.parentBase? e) (e.ownRecord? o)

/-- The type of direct instances: the base type, tagged unless a data type is inherited. -/
def directShape (r : Registry) (o : Options) (e : Entity) : TypeExpr :=
  if r.extendsBuiltin e then .reference e.nameOfBase
  else .intersection [.record [e.classField o], .reference e.nameOfBase]

def childrenInOrder (r : Registry) (e : Entity) : List Entity :=
  Identifier.sortOn Entity.subject (r.resolve e.children)

/-- What the public type admits besides direct instances. -/
def otherArms (r : Registry) (e : Entity) : List TypeExpr :=
  ((r.childrenInOrder e).map fun child => .reference child.name) ++
    (if r.admitsString e then [.string] else [])

/-- Direct instances, instances of the children and, where allowed, strings. -/
def instanceShape (r : Registry) (o : Options) (e : Entity) : TypeExpr :=
  match r.otherArms e with
  | [] => r.directShape o e
  | [arm] => .union [r.directShape o e, arm]
  | arms => .union [r.directShape o e, .parenthesized (.union arms)]

/-- The public type of an entity, which admits its enumeration values too. -/
def publicShape (r : Registry) (o : Options) (e : Entity) : TypeExpr :=
  match e.enumValues with
  | [] => r.instanceShape o e
  | _ :: _ => .union [.reference e.nameOfEnum, .parenthesized (r.instanceShape o e)]

def deprecationNotice (r : Registry) (e : Entity) : String :=
  "@deprecated Use " ++ " or ".intercalate ((r.resolve e.replacements).map Entity.name) ++
    " instead."

def documentation (r : Registry) (e : Entity) : Option String :=
  if e.deprecated then
    match e.comment with
    | none => some (r.deprecationNotice e)
    | some comment => some (comment ++ "\n" ++ r.deprecationNotice e)
  else
    e.comment

end Registry

end VocabTypes
