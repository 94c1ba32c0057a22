import VocabTypes.Fact
import VocabTypes.Registry.Basic

/-!
# The standard data types

## Text, numbers, times and truth values

Every vocabulary built on the standard one shares six scalar data types and the
union over them.
-/

namespace VocabTypes
namespace Registry

def standardUrl (name : String) : String :=
  Vocabulary.standard ++ name

/-- The six scalar data types, in the order in which they are registered. -/
def standardScalars : List (String × Kind) :=
  [("Text", .builtin "string" "Data type: Text."),
    ("Number", .builtin "number" "Data type: Number."),
    ("Time", .builtin "string"
      "A point in time recurring on multiple days in the form hh:mm:ss[Z|(+|-)hh:mm]."),
    ("Date", .builtin "string" "A date value in ISO 8601 date format."),
    ("DateTime", .builtin "string"
      ("A combination of date and time of day in the form " ++
        "[-]CCYY-MM-DDThh:mm:ss[Z|(+|-)hh:mm] (see Chapter 5.4 of ISO 8601).")),
    ("Boolean", .booleanEnum (standardUrl "True") (standardUrl "False")
      "Boolean: True or False.")]

def standardUnion : String :=
  "DataType"

def standardUnionDoc : String :=
  "The basic data types such as Integers, Strings, etc."

/-- Registers scalars one after the other up to the first refusal; those before it stay. -/
def insertScalars (r : Registry) :
    List (String × Kind) → Registry × Except Rejection (List EntityId)
  | [] => (r, .ok [])
  | (name, kind) :: rest =>
      match r.insert (.ofUrl (standardUrl name)) kind false with
      | .error cause => (r, .error cause)
      | .ok (id, r) =>
          match r.insertScalars rest with
          | (r, .error cause) => (r, .error cause)
          | (r, .ok ids) => (r, .ok (id :: ids))

/-- Registers the standard data types, the union last; what precedes a refusal stays. -/
def insertStandard (r : Registry) : Registry × Except Rejection (List EntityId) :=
  match r.insertScalars standardScalars with
  | (r, .error cause) => (r, .error cause)
  | (r, .ok scalars) =>
      match r.insertDataTypeUnion (standardUrl standardUnion) scalars standardUnionDoc with
      | .error cause => (r, .error cause)
      | .ok (id, r) => (r, .ok (scalars ++ [id]))

end Registry
end VocabTypes
