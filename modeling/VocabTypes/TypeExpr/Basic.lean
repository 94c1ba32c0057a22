/-!
# Type expressions

## Structural types of the generated code

A type is a name, a string literal, a union or intersection of types, a type in
parentheses, or a record.  The fields of a record may be optional and may carry
documentation.
-/

namespace VocabTypes

mutual

/-- A structural type. -/
inductive TypeExpr where
  | reference (name : String)
  | literal (value : String)
  | union (arms : List TypeExpr)
  | intersection (arms : List TypeExpr)
  | parenthesized (inner : TypeExpr)
  | record (fields : List Field)

structure Field where
  name : String
  optional : Bool
  type : TypeExpr
  comment : Option String

end

namespace Field

/-- An undocumented field that may be missing. -/
def mayHave (name : String) (type : TypeExpr) : Field :=
  { name, optional := true, type, comment := none }

/-- An undocumented field that has to be there. -/
def mustHave (name : String) (type : TypeExpr) : Field :=
  { name, optional := false, type, comment := none }

end Field

namespace TypeExpr

def fields? : TypeExpr → Option (List Field)
  | record fields => some fields
  | _ => none

/-- Whether a type is a union with more than one arm. -/
def isWideUnion : TypeExpr → Bool
  | union (_ :: _ :: _) => true
  | _ => false

/-!
# Looking for a field

Unions, intersections and parentheses are looked through.  The types of fields
are not: a record answers for its own fields only.
-/

mutual

/-- Whether a record met on the way down has a field of this name. -/
def hasField (name : String) : TypeExpr → Bool
  | reference _ => false
  | literal _ => false
  | union arms => anyHasField name arms
  | intersection arms => anyHasField name arms
  | parenthesized inner => inner.hasField name
  | record fields => fields.any fun field => field.name == name

def anyHasField (name : String) : List TypeExpr → Bool
  | [] => false
  | arm :: arms => arm.hasField name || anyHasField name arms

end

end TypeExpr

end VocabTypes
