import VocabTypes.Declaration.Basic
import VocabTypes.TypeExpr.Json

/-!
# Declarations as JSON

## An exchange form for declarations

A declaration is one object that holds its kind beside its other data.
Documentation is left out when there is none.
-/

namespace VocabTypes

/-!
# Writing
-/

def EnumMember.toJson (member : EnumMember) : Json :=
  .obj ([("name", .str member.name), ("value", .str member.value)] ++
    Json.optionalText "comment" member.comment)

def Declaration.toJson : Declaration → Json
  | .enumeration name comment members =>
      .obj ([("kind", .str "enum"), ("name", .str name)] ++
        Json.optionalText "comment" comment ++
        [("members", .arr (members.map EnumMember.toJson))])
  | .typeAlias name comment type =>
      .obj ([("kind", .str "type_alias"), ("name", .str name)] ++
        Json.optionalText "comment" comment ++ [("type", type.toJson)])

def Declaration.listToJson (declarations : List Declaration) : Json :=
  .arr (declarations.map Declaration.toJson)

/-!
# Reading
-/

def EnumMember.ofJson? (json : Json) : Option EnumMember := do
  let name ← (json.get? "name").bind Json.text?
  let value ← (json.get? "value").bind Json.text?
  let comment ← json.readOptionalText "comment"
  return { name, value, comment }

def Declaration.ofJson? (json : Json) : Option Declaration := do
  let name ← (json.get? "name").bind Json.text?
  let comment ← json.readOptionalText "comment"
  match (json.get? "kind").bind Json.text? with
  | some "enum" =>
      let items ← (json.get? "members").bind Json.items?
      let members ← items.mapM EnumMember.ofJson?
      return .enumeration name comment members
  | some "type_alias" =>
      let type ← (json.get? "type").bind TypeExpr.ofJson?
      return .typeAlias name comment type
  | _ => none

def Declaration.listOfJson? (json : Json) : Option (List Declaration) := do
  let items ← json.items?
  items.mapM Declaration.ofJson?

end VocabTypes
