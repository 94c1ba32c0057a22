import Mathlib.Data.List.Forall2
import VocabTypes.Declaration.Json
import VocabTypes.Proofs.Nodes

/-!
# Recovery

## Declarations told from their JSON

Two JSON values are the same when they differ in the order of members only.  Reading
looks members up by key, so it does not tell such values apart; and it finds in the
JSON of declarations what has been written.  So different declarations never have the
same JSON.
-/

namespace VocabTypes
namespace Json

/-!
# The same value
-/

/-- Values are the same when their objects have the same under each key. -/
inductive Same : Json → Json → Prop where
  | null : Same null null
  | bool (value : Bool) : Same (bool value) (bool value)
  | num (mantissa exponent : Int) : Same (num mantissa exponent) (num mantissa exponent)
  | str (text : String) : Same (str text) (str text)
  | arr {items others : List Json} :
      List.Forall₂ Same items others → Same (arr items) (arr others)
  | obj {members others : List (String × Json)} :
      (∀ key, Option.Rel Same ((obj members).get? key) ((obj others).get? key)) →
        Same (obj members) (obj others)

/-- No object in a value has two members with one key. -/
inductive KeysDistinct : Json → Prop where
  | null : KeysDistinct null
  | bool (value : Bool) : KeysDistinct (bool value)
  | num (mantissa exponent : Int) : KeysDistinct (num mantissa exponent)
  | str (text : String) : KeysDistinct (str text)
  | arr {items : List Json} : (∀ item ∈ items, KeysDistinct item) → KeysDistinct (arr items)
  | obj {members : List (String × Json)} : (members.map Prod.fst).Nodup →
      (∀ member ∈ members, KeysDistinct member.2) → KeysDistinct (obj members)

@[simp] theorem get?_nil (key : String) : (obj []).get? key = none :=
  rfl

@[simp] theorem get?_cons (key : String) (member : String × Json)
    (members : List (String × Json)) :
    (obj (member :: members)).get? key =
      if member.1 = key then some member.2 else (obj members).get? key := by
  by_cases hkey : member.1 = key
  · simp [get?, hkey]
  · simp [get?, hkey]

@[simp] theorem get?_append (key : String) (members others : List (String × Json)) :
    (obj (members ++ others)).get? key =
      ((obj members).get? key).or ((obj others).get? key) := by
  simp [get?, List.find?_append, Option.map_or]

@[simp] theorem get?_optionalText (key other : String) (text : Option String) :
    (obj (optionalText other text)).get? key = if other = key then text.map .str else none := by
  cases text with
  | none => simp [optionalText]
  | some text => simp [optionalText]

theorem mem_of_get? {key : String} {value : Json} {members : List (String × Json)}
    (h : (obj members).get? key = some value) : (key, value) ∈ members := by
  rcases Option.map_eq_some_iff.mp h with ⟨member, hfound, rfl⟩
  have hkey : member.1 = key := by simpa using List.find?_some hfound
  rw [← hkey]
  exact List.mem_of_find?_eq_some hfound

/-- What is found under a key is the only value that has it when keys are distinct. -/
theorem get?_eq_some_iff {members : List (String × Json)} (h : (members.map Prod.fst).Nodup)
    {key : String} {value : Json} :
    (obj members).get? key = some value ↔ (key, value) ∈ members := by
  constructor
  · exact mem_of_get?
  · induction members with
    | nil => exact fun hmem => nomatch hmem
    | cons member members ih =>
        intro hmem
        rw [List.map_cons, List.nodup_cons] at h
        rw [get?_cons]
        rcases List.mem_cons.mp hmem with rfl | hlater
        · rw [if_pos rfl]
        · have hother : member.1 ≠ key := by
            intro hkey
            rw [hkey] at h
            exact h.left (List.mem_map_of_mem (f := Prod.fst) hlater)
          rw [if_neg hother]
          exact ih h.right hlater

namespace Same

theorem refl (json : Json) : Same json json := by
  induction json with
  | null => exact null
  | bool value => exact bool value
  | num mantissa exponent => exact num mantissa exponent
  | str text => exact str text
  | arr items ih => exact arr (List.forall₂_same.mpr ih)
  | obj members ih =>
      apply obj
      intro key
      cases hfound : (Json.obj members).get? key with
      | none => exact .none
      | some value => exact .some (ih _ (mem_of_get? hfound))

/-- Members with distinct keys may come in any order. -/
theorem of_perm {members others : List (String × Json)} (h : members.Perm others)
    (hdistinct : (members.map Prod.fst).Nodup) : Same (.obj members) (.obj others) := by
  apply obj
  intro key
  have hothers : (others.map Prod.fst).Nodup := (h.map Prod.fst).nodup_iff.mp hdistinct
  have hsame : (Json.obj members).get? key = (Json.obj others).get? key := by
    apply Option.ext
    intro value
    rw [get?_eq_some_iff hdistinct, get?_eq_some_iff hothers, h.mem_iff]
  rw [hsame]
  cases (Json.obj others).get? key with
  | none => exact .none
  | some value => exact .some (refl value)

/-!
# Looking into the same value
-/

variable {json : Json}

theorem eq_str {text : String} (h : Same json (.str text)) : json = .str text := by
  cases h
  rfl

theorem eq_bool {value : Bool} (h : Same json (.bool value)) : json = .bool value := by
  cases h
  rfl

theorem items?_eq {others : List Json} (h : Same json (.arr others)) :
    ∃ items, json.items? = some items ∧ List.Forall₂ Same items others := by
  cases h with
  | arr hitems => exact ⟨_, rfl, hitems⟩

theorem rel_get? {members : List (String × Json)} (h : Same json (.obj members)) (key : String) :
    Option.Rel Same (json.get? key) ((Json.obj members).get? key) := by
  cases h with
  | obj hmembers => exact hmembers key

variable {members : List (String × Json)} (h : Same json (.obj members)) (key : String)

include h

theorem exists_get? {value : Json} (hvalue : (Json.obj members).get? key = some value) :
    ∃ found, json.get? key = some found ∧ Same found value := by
  have hrel := h.rel_get? key
  rw [hvalue] at hrel
  cases hfound : json.get? key with
  | none =>
      rw [hfound] at hrel
      cases hrel
  | some found =>
      rw [hfound] at hrel
      cases hrel with
      | some hsame => exact ⟨found, rfl, hsame⟩

theorem get?_text {text : String} (hvalue : (Json.obj members).get? key = some (.str text)) :
    (json.get? key).bind text? = some text := by
  rcases h.exists_get? key hvalue with ⟨found, hfound, hsame⟩
  rw [hfound, hsame.eq_str]
  rfl

theorem get?_bool {value : Bool} (hvalue : (Json.obj members).get? key = some (.bool value)) :
    (json.get? key).bind bool? = some value := by
  rcases h.exists_get? key hvalue with ⟨found, hfound, hsame⟩
  rw [hfound, hsame.eq_bool]
  rfl

theorem readOptionalText_eq {text : Option String}
    (hvalue : (Json.obj members).get? key = text.map .str) :
    json.readOptionalText key = some text := by
  have hrel := h.rel_get? key
  rw [hvalue] at hrel
  cases text with
  | none =>
      cases hfound : json.get? key with
      | none => rw [readOptionalText, hfound]
      | some found =>
          rw [hfound] at hrel
          cases hrel
  | some text =>
      rcases h.exists_get? key hvalue with ⟨found, hfound, hsame⟩
      rw [readOptionalText, hfound, hsame.eq_str]
      rfl

omit h

/-- Items are read back one by one. -/
theorem mapM_eq {α : Type} {write : α → Json} {read : Json → Option α} {values : List α}
    (hread : ∀ value ∈ values, ∀ item, Same item (write value) → read item = some value)
    {items : List Json} (h : List.Forall₂ Same items (values.map write)) :
    items.mapM read = some values := by
  induction values generalizing items with
  | nil =>
      cases h
      rfl
  | cons value values ih =>
      cases h with
      | cons hitem hitems =>
          rw [List.forall_mem_cons] at hread
          rw [List.mapM_cons, hread.left _ hitem, ih hread.right hitems]
          rfl

end Same

end Json

open Json

/-!
# Types

A type is read from anything that is the same as what has been written for it.
-/

theorem Json.Same.tagged {json value : Json} {kind : String} (h : Same json (.tagged kind value)) :
    (json.get? "kind").bind text? = some kind ∧
      ∃ found, json.get? "value" = some found ∧ Same found value :=
  ⟨h.get?_text "kind" (by simp), h.exists_get? "value" (by simp)⟩

namespace TypeExpr

theorem toJsonAll_eq_map (types : List TypeExpr) : toJsonAll types = types.map toJson := by
  induction types with
  | nil => rfl
  | cons type types ih => rw [toJsonAll, ih, List.map_cons]

theorem allOfJson?_eq_mapM (items : List Json) : allOfJson? items = items.mapM ofJson? := by
  induction items with
  | nil => rw [allOfJson?, List.mapM_nil, Option.pure_def]
  | cons item items ih =>
      rw [allOfJson?, ih, List.mapM_cons]
      cases ofJson? item with
      | none => rfl
      | some type =>
          cases items.mapM ofJson? with
          | none => rfl
          | some types => rfl

end TypeExpr

namespace Field

theorem toJsonAll_eq_map (fields : List Field) : toJsonAll fields = fields.map toJson := by
  induction fields with
  | nil => rfl
  | cons field fields ih => rw [toJsonAll, ih, List.map_cons]

theorem allOfJson?_eq_mapM (items : List Json) : allOfJson? items = items.mapM ofJson? := by
  induction items with
  | nil => rw [allOfJson?, List.mapM_nil, Option.pure_def]
  | cons item items ih =>
      rw [allOfJson?, ih, List.mapM_cons]
      cases ofJson? item with
      | none => rfl
      | some field =>
          cases items.mapM ofJson? with
          | none => rfl
          | some fields => rfl

theorem ofJson?_of_same {field : Field} {json : Json}
    (htype : ∀ part, Same part field.type.toJson → TypeExpr.ofJson? part = some field.type)
    (h : Same json field.toJson) : ofJson? json = some field := by
  cases field with
  | mk name optional type comment =>
      rw [toJson] at h
      rcases h.exists_get? "type" rfl with ⟨part, hpart, hsame⟩
      have hname := h.get?_text "name" rfl
      have hoptional := h.get?_bool "optional" rfl
      have hcomment : json.readOptionalText "comment" = some comment :=
        h.readOptionalText_eq "comment" (by simp)
      rw [ofJson?]
      split
      case h_1 hnone => rw [hpart] at hnone; cases hnone
      case h_2 found hfound =>
        rw [hpart] at hfound
        cases hfound
        rw [htype part hsame, hname, hoptional, hcomment]
        rfl

end Field

namespace TypeExpr

variable {json : Json}

theorem armsOfJson?_of_same {arms : List TypeExpr}
    (hread : ∀ arm ∈ arms, ∀ part, Same part arm.toJson → ofJson? part = some arm)
    (h : Same json (.arr (toJsonAll arms))) : armsOfJson? json = some arms := by
  rcases h.items?_eq with ⟨items, hitems, hall⟩
  rw [toJsonAll_eq_map] at hall
  rw [armsOfJson?]
  split
  case h_1 hnone => rw [hitems] at hnone; cases hnone
  case h_2 found hfound =>
    rw [hitems] at hfound
    cases hfound
    rw [allOfJson?_eq_mapM, Same.mapM_eq hread hall]

theorem recordOfJson?_of_same {fields : List Field}
    (hread : ∀ field ∈ fields, ∀ part, Same part field.toJson →
      Field.ofJson? part = some field)
    (h : Same json (.arr (Field.toJsonAll fields))) : Field.recordOfJson? json = some fields := by
  rcases h.items?_eq with ⟨items, hitems, hall⟩
  rw [Field.toJsonAll_eq_map] at hall
  rw [Field.recordOfJson?]
  split
  case h_1 hnone => rw [hitems] at hnone; cases hnone
  case h_2 found hfound =>
    rw [hitems] at hfound
    cases hfound
    rw [Field.allOfJson?_eq_mapM, Same.mapM_eq hread hall]

/-- How the parts of a type are read depends on its kind. -/
theorem ofJson?_of_get? {value : Json} (h : json.get? "value" = some value) :
    ofJson? json =
      match (json.get? "kind").bind text? with
      | some "reference" => value.text?.map .reference
      | some "literal" => value.text?.map .literal
      | some "union" => (armsOfJson? value).map .union
      | some "intersection" => (armsOfJson? value).map .intersection
      | some "parenthesized" => (ofJson? value).map .parenthesized
      | some "record" => (Field.recordOfJson? value).map .record
      | _ => none := by
  rw [ofJson?]
  split
  case h_1 hnone => rw [h] at hnone; cases hnone
  case h_2 found hfound =>
    rw [h] at hfound
    cases hfound
    rfl

theorem ofJson?_of_same {type : TypeExpr} (h : Same json type.toJson) :
    ofJson? json = some type := by
  induction type generalizing json with
  | reference name =>
      rcases h.tagged with ⟨hkind, found, hfound, hsame⟩
      rw [ofJson?_of_get? hfound, hkind, hsame.eq_str]
      rfl
  | literal value =>
      rcases h.tagged with ⟨hkind, found, hfound, hsame⟩
      rw [ofJson?_of_get? hfound, hkind, hsame.eq_str]
      rfl
  | union arms ih =>
      rcases h.tagged with ⟨hkind, found, hfound, hsame⟩
      have harms := armsOfJson?_of_same (fun arm harm _ => ih arm harm) hsame
      rw [ofJson?_of_get? hfound, hkind]
      exact congrArg (Option.map union) harms
  | intersection arms ih =>
      rcases h.tagged with ⟨hkind, found, hfound, hsame⟩
      have harms := armsOfJson?_of_same (fun arm harm _ => ih arm harm) hsame
      rw [ofJson?_of_get? hfound, hkind]
      exact congrArg (Option.map intersection) harms
  | parenthesized inner ih =>
      rcases h.tagged with ⟨hkind, found, hfound, hsame⟩
      rw [ofJson?_of_get? hfound, hkind]
      exact congrArg (Option.map parenthesized) (ih hsame)
  | record fields ih =>
      rcases h.tagged with ⟨hkind, found, hfound, hsame⟩
      have hfields := recordOfJson?_of_same
        (fun field hfield _ => Field.ofJson?_of_same fun _ => ih field hfield) hsame
      rw [ofJson?_of_get? hfound, hkind]
      exact congrArg (Option.map record) hfields

end TypeExpr

/-!
# Declarations
-/

theorem EnumMember.ofJson?_of_same {member : EnumMember} {json : Json}
    (h : Same json member.toJson) : ofJson? json = some member := by
  have hname := h.get?_text "name" rfl
  have hvalue := h.get?_text "value" rfl
  have hcomment : json.readOptionalText "comment" = some member.comment :=
    h.readOptionalText_eq "comment" (by simp)
  rw [ofJson?, hname, hvalue, hcomment]
  rfl

namespace Declaration

variable {json : Json}

theorem ofJson?_of_same {d : Declaration} (h : Same json d.toJson) : ofJson? json = some d := by
  cases d with
  | enumeration name comment members =>
      have hkind := h.get?_text "kind" rfl
      have hname := h.get?_text "name" rfl
      have hcomment : json.readOptionalText "comment" = some comment :=
        h.readOptionalText_eq "comment" (by simp)
      have hlast : ∃ found, json.get? "members" = some found ∧
          Same found (.arr (members.map EnumMember.toJson)) := h.exists_get? "members" (by simp)
      rcases hlast with ⟨found, hfound, hsame⟩
      rcases hsame.items?_eq with ⟨items, hitems, hall⟩
      have hmembers : items.mapM EnumMember.ofJson? = some members :=
        Same.mapM_eq (fun _ _ _ => EnumMember.ofJson?_of_same) hall
      rw [ofJson?, hname, hcomment, hkind, hfound]
      simp [hitems, hmembers]
  | typeAlias name comment type =>
      have hkind := h.get?_text "kind" rfl
      have hname := h.get?_text "name" rfl
      have hcomment : json.readOptionalText "comment" = some comment :=
        h.readOptionalText_eq "comment" (by simp)
      have hlast : ∃ found, json.get? "type" = some found ∧ Same found type.toJson :=
        h.exists_get? "type" (by simp)
      rcases hlast with ⟨found, hfound, hsame⟩
      rw [ofJson?, hname, hcomment, hkind, hfound]
      simp [TypeExpr.ofJson?_of_same hsame]

theorem listOfJson?_of_same {ds : List Declaration} (h : Same json (listToJson ds)) :
    listOfJson? json = some ds := by
  rcases h.items?_eq with ⟨items, hitems, hall⟩
  have hread : items.mapM ofJson? = some ds := Same.mapM_eq (fun _ _ _ => ofJson?_of_same) hall
  rw [listOfJson?, hitems]
  exact hread

end Declaration

/-!
# Distinct keys

An object is written with each of its keys once, so it is told by what stands under them.
-/

namespace Json

attribute [simp] KeysDistinct.bool KeysDistinct.str

@[simp] theorem keysDistinct_arr_map {α : Type} {write : α → Json} {values : List α} :
    (arr (values.map write)).KeysDistinct ↔ ∀ value ∈ values, (write value).KeysDistinct := by
  rw [← List.forall_mem_map]
  constructor
  · intro h
    cases h with
    | arr hitems => exact hitems
  · exact KeysDistinct.arr

@[simp] theorem keysDistinct_obj {members : List (String × Json)} :
    (obj members).KeysDistinct ↔
      (members.map Prod.fst).Nodup ∧ ∀ member ∈ members, member.2.KeysDistinct := by
  constructor
  · intro h
    cases h with
    | obj hkeys hvalues => exact ⟨hkeys, hvalues⟩
  · intro h
    exact .obj h.left h.right

@[simp] theorem keysDistinct_tagged {kind : String} {value : Json} :
    (tagged kind value).KeysDistinct ↔ value.KeysDistinct := by
  simp [tagged]

end Json

theorem Field.keysDistinct_toJson {field : Field} (h : field.type.toJson.KeysDistinct) :
    field.toJson.KeysDistinct := by
  cases field with
  | mk name optional type comment =>
      cases comment with
      | none => simp [Field.toJson, optionalText, h]
      | some comment => simp [Field.toJson, optionalText, h]

theorem TypeExpr.keysDistinct_toJson (type : TypeExpr) : type.toJson.KeysDistinct := by
  induction type with
  | reference name => simp [toJson]
  | literal value => simp [toJson]
  | union arms ih => simpa [toJson, toJsonAll_eq_map] using ih
  | intersection arms ih => simpa [toJson, toJsonAll_eq_map] using ih
  | parenthesized inner ih => simpa [toJson] using ih
  | record fields ih =>
      rw [toJson, keysDistinct_tagged, Field.toJsonAll_eq_map, keysDistinct_arr_map]
      exact fun field hfield => Field.keysDistinct_toJson (ih field hfield)

theorem EnumMember.keysDistinct_toJson (member : EnumMember) : member.toJson.KeysDistinct := by
  rw [toJson]
  cases member.comment with
  | none => simp [optionalText]
  | some comment => simp [optionalText]

namespace Declaration

theorem keysDistinct_toJson (d : Declaration) : d.toJson.KeysDistinct := by
  cases d with
  | enumeration name comment members =>
      cases comment with
      | none => simp [toJson, optionalText, EnumMember.keysDistinct_toJson]
      | some comment => simp [toJson, optionalText, EnumMember.keysDistinct_toJson]
  | typeAlias name comment type =>
      cases comment with
      | none => simp [toJson, optionalText, TypeExpr.keysDistinct_toJson]
      | some comment => simp [toJson, optionalText, TypeExpr.keysDistinct_toJson]

/--
The JSON of declarations loses nothing.

No object in it has a key twice, so it is told by what stands under the keys of its
objects.  The declarations are read back from every value that is the same as their
JSON, and so lists of declarations with the same JSON are equal.
-/
theorem listToJson_recovered (ds es : List Declaration) :
    (listToJson ds).KeysDistinct ∧
      (∀ json, Same json (listToJson ds) → listOfJson? json = some ds) ∧
      (Same (listToJson ds) (listToJson es) ↔ ds = es) := by
  refine ⟨?_, fun json => listOfJson?_of_same, ?_⟩
  · rw [listToJson, keysDistinct_arr_map]
    exact fun d _ => d.keysDistinct_toJson
  · constructor
    · intro hsame
      have hread := listOfJson?_of_same hsame
      rw [listOfJson?_of_same (Same.refl _)] at hread
      exact Option.some.inj hread
    · rintro rfl
      exact Same.refl _

/-- A declaration that may be documented, over a record with a field of a nested type. -/
def noteAlias (comment : Option String) : Declaration :=
  .typeAlias "Note" comment
    (.record [.mayHave "text" (.parenthesized (.union [.literal "", .reference "string"]))])

/-- What is written for it, with the members the other way round. -/
def noteReversed : Json :=
  .arr [.obj [("type", (TypeExpr.record [.mayHave "text"
      (.parenthesized (.union [.literal "", .reference "string"]))]).toJson),
    ("comment", .str ""), ("name", .str "Note"), ("kind", .str "type_alias")]]

theorem note_recovered :
    ¬ Same (listToJson [noteAlias none]) (listToJson [noteAlias (some "")]) ∧
      Same noteReversed (listToJson [noteAlias (some "")]) ∧
      listOfJson? noteReversed = some [noteAlias (some "")] := by
  have hreversed : Same noteReversed (listToJson [noteAlias (some "")]) := by
    refine .arr (.cons (.of_perm ?_ ?_) .nil)
    · exact List.reverse_perm
        [("kind", _), ("name", _), ("comment", _), ("type", _)]
    · simp
  refine ⟨?_, hreversed, ?_⟩
  · rw [(listToJson_recovered [noteAlias none] [noteAlias (some "")]).right.right]
    intro h
    cases h
  · exact (listToJson_recovered [noteAlias (some "")] []).right.left noteReversed hreversed

end Declaration
end VocabTypes
