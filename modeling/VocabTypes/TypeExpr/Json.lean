import VocabTypes.Json.Basic
import VocabTypes.TypeExpr.Basic

/-!
# Types as JSON

## An exchange form for type expressions

A type is an object with its kind and, under a second key, its parts.  The
documentation of a field is left out when there is none.
-/

namespace VocabTypes

/-- A member that is there only when its value is. -/
def Json.optionalText (key : String) : Option String → List (String × Json)
  | none => []
  | some text => [(key, .str text)]

/-- An object with a kind and its parts. -/
def Json.tagged (kind : String) (value : Json) : Json :=
  .obj [("kind", .str kind), ("value", value)]

/-!
# Writing
-/

mutual

def TypeExpr.toJson : TypeExpr → Json
  | .reference name => .tagged "reference" (.str name)
  | .literal value => .tagged "literal" (.str value)
  | .union arms => .tagged "union" (.arr (TypeExpr.toJsonAll arms))
  | .intersection arms => .tagged "intersection" (.arr (TypeExpr.toJsonAll arms))
  | .parenthesized inner => .tagged "parenthesized" inner.toJson
  | .record fields => .tagged "record" (.arr (Field.toJsonAll fields))

def TypeExpr.toJsonAll : List TypeExpr → List Json
  | [] => []
  | arm :: arms => arm.toJson :: TypeExpr.toJsonAll arms

def Field.toJson : Field → Json
  | ⟨name, optional, type, comment⟩ =>
      .obj ([("name", .str name), ("optional", .bool optional), ("type", type.toJson)] ++
        Json.optionalText "comment" comment)

def Field.toJsonAll : List Field → List Json
  | [] => []
  | field :: fields => field.toJson :: Field.toJsonAll fields

end

/-!
# Reading

Members are looked up by key, so their order does not matter.
-/

namespace Json

/-- The text under a key that may be missing; nothing when it is there and is no text. -/
def readOptionalText (key : String) (json : Json) : Option (Option String) :=
  match json.get? key with
  | none => some none
  | some value => value.text?.map some

theorem sizeOf_get?_lt {json value : Json} {key : String} (h : json.get? key = some value) :
    sizeOf value < sizeOf json := by
  cases json with
  | obj members =>
      obtain ⟨⟨found, _⟩, hfind, rfl⟩ := Option.map_eq_some_iff.mp h
      have smaller := List.sizeOf_lt_of_mem (List.mem_of_find?_eq_some hfind)
      simp at smaller ⊢
      omega
  | _ => simp [get?] at h

theorem sizeOf_items?_lt {json : Json} {items : List Json} (h : json.items? = some items) :
    sizeOf items < sizeOf json := by
  cases json <;> simp_all [items?]

end Json

mutual

def TypeExpr.ofJson? (json : Json) : Option TypeExpr :=
  match _h : json.get? "value" with
  | none => none
  | some value =>
      match (json.get? "kind").bind Json.text? with
      | some "reference" => value.text?.map .reference
      | some "literal" => value.text?.map .literal
      | some "union" => (TypeExpr.armsOfJson? value).map .union
      | some "intersection" => (TypeExpr.armsOfJson? value).map .intersection
      | some "parenthesized" => (TypeExpr.ofJson? value).map .parenthesized
      | some "record" => (Field.recordOfJson? value).map .record
      | _ => none
termination_by sizeOf json
decreasing_by
  all_goals exact Json.sizeOf_get?_lt _h

def TypeExpr.armsOfJson? (json : Json) : Option (List TypeExpr) :=
  match _h : json.items? with
  | none => none
  | some items => TypeExpr.allOfJson? items
termination_by sizeOf json
decreasing_by
  exact Json.sizeOf_items?_lt _h

def TypeExpr.allOfJson? : List Json → Option (List TypeExpr)
  | [] => some []
  | item :: items =>
      match TypeExpr.ofJson? item, TypeExpr.allOfJson? items with
      | some arm, some arms => some (arm :: arms)
      | _, _ => none
termination_by items => sizeOf items

def Field.recordOfJson? (json : Json) : Option (List Field) :=
  match _h : json.items? with
  | none => none
  | some items => Field.allOfJson? items
termination_by sizeOf json
decreasing_by
  exact Json.sizeOf_items?_lt _h

def Field.allOfJson? : List Json → Option (List Field)
  | [] => some []
  | item :: items =>
      match Field.ofJson? item, Field.allOfJson? items with
      | some field, some fields => some (field :: fields)
      | _, _ => none
termination_by items => sizeOf items

def Field.ofJson? (json : Json) : Option Field :=
  match _h : json.get? "type" with
  | none => none
  | some type => do
      let type ← TypeExpr.ofJson? type
      let name ← (json.get? "name").bind Json.text?
      let optional ← (json.get? "optional").bind Json.bool?
      let comment ← json.readOptionalText "comment"
      return { name, optional, type, comment }
termination_by sizeOf json
decreasing_by
  exact Json.sizeOf_get?_lt _h

end

end VocabTypes
