import VocabTypes.Proofs.Nodes

/-!
# Normal forms

## Types up to the way in which they are written

Parentheses, unions and intersections of one type, unions directly inside unions and
intersections directly inside intersections make no difference to what a type says, and
neither does the documentation of fields.  The normal form of a type has none of them.
-/

namespace VocabTypes

/-- The two ways to put several types together. -/
inductive Connective where
  | union
  | intersection

namespace Connective

def of : Connective → List TypeExpr → TypeExpr
  | union, types => .union types
  | intersection, types => .intersection types

/-- Several types put together; a single type is left as it is. -/
def join (c : Connective) : List TypeExpr → TypeExpr
  | [type] => type
  | types => c.of types

/-- The types that are put together directly in a type. -/
def parts : Connective → TypeExpr → List TypeExpr
  | union, .union types => types
  | intersection, .intersection types => types
  | _, type => [type]

@[simp] theorem parts_of (c : Connective) (types : List TypeExpr) :
    c.parts (c.of types) = types := by
  cases c with
  | union => rfl
  | intersection => rfl

theorem parts_cases (c : Connective) (type : TypeExpr) :
    c.parts type = [type] ∨ ∃ types, type = c.of types := by
  cases c with
  | union =>
      cases type with
      | union types => exact Or.inr ⟨types, rfl⟩
      | _ => exact Or.inl rfl
  | intersection =>
      cases type with
      | intersection types => exact Or.inr ⟨types, rfl⟩
      | _ => exact Or.inl rfl

theorem everywhere_of {c : Connective} {p : TypeExpr → Prop} {types : List TypeExpr} :
    (c.of types).Everywhere p ↔ p (c.of types) ∧ ∀ type ∈ types, type.Everywhere p := by
  cases c with
  | union => exact TypeExpr.everywhere_union
  | intersection => exact TypeExpr.everywhere_intersection

/-- Several types that cannot be put together in a simpler way. -/
def IsFlat (c : Connective) (types : List TypeExpr) : Prop :=
  types.length ≠ 1 ∧ ∀ type ∈ types, c.parts type = [type]

end Connective

/-!
# The normal form
-/

mutual

def TypeExpr.normal : TypeExpr → TypeExpr
  | .reference name => .reference name
  | .literal value => .literal value
  | .union arms => Connective.union.join (TypeExpr.normalParts .union arms)
  | .intersection arms => Connective.intersection.join (TypeExpr.normalParts .intersection arms)
  | .parenthesized inner => inner.normal
  | .record fields => .record (Field.normalAll fields)

/-- The parts of the normal forms of several types, one type after the other. -/
def TypeExpr.normalParts (c : Connective) : List TypeExpr → List TypeExpr
  | [] => []
  | type :: types => c.parts type.normal ++ TypeExpr.normalParts c types

def Field.normalAll : List Field → List Field
  | [] => []
  | ⟨name, optional, type, _⟩ :: fields =>
      ⟨name, optional, type.normal, none⟩ :: Field.normalAll fields

end

def Field.normal (field : Field) : Field :=
  ⟨field.name, field.optional, field.type.normal, none⟩

theorem Field.normalAll_eq_map (fields : List Field) :
    Field.normalAll fields = fields.map Field.normal := by
  induction fields with
  | nil => rfl
  | cons field fields ih =>
      cases field with
      | mk name optional type comment =>
          rw [normalAll, ih, List.map_cons]
          rfl

namespace TypeExpr

theorem normalParts_eq_flatMap (c : Connective) (types : List TypeExpr) :
    normalParts c types = types.flatMap fun type => c.parts type.normal := by
  induction types with
  | nil => rfl
  | cons type types ih => rw [normalParts, ih, List.flatMap_cons]

theorem normalParts_append (c : Connective) (types more : List TypeExpr) :
    normalParts c (types ++ more) = normalParts c types ++ normalParts c more := by
  rw [normalParts_eq_flatMap, normalParts_eq_flatMap, normalParts_eq_flatMap,
    List.flatMap_append]

theorem normalParts_singleton (c : Connective) (type : TypeExpr) :
    normalParts c [type] = c.parts type.normal := by
  rw [normalParts, normalParts, List.append_nil]

theorem normal_of (c : Connective) (types : List TypeExpr) :
    (c.of types).normal = c.join (normalParts c types) := by
  cases c with
  | union => rw [Connective.of, normal]
  | intersection => rw [Connective.of, normal]

/-!
# What normal forms are free of
-/

/-- A node with nothing that the normal form leaves out. -/
def IsSettled : TypeExpr → Prop
  | union arms => Connective.union.IsFlat arms
  | intersection arms => Connective.intersection.IsFlat arms
  | parenthesized _ => False
  | record fields => ∀ field ∈ fields, field.comment = none
  | _ => True

end TypeExpr

namespace Connective

variable {c : Connective}

theorem isSettled_of {types : List TypeExpr} : (c.of types).IsSettled ↔ c.IsFlat types := by
  cases c with
  | union => exact Iff.rfl
  | intersection => exact Iff.rfl

theorem join_cases (c : Connective) (types : List TypeExpr) :
    (∃ type, types = [type] ∧ c.join types = type) ∨
      types.length ≠ 1 ∧ c.join types = c.of types := by
  cases types with
  | nil => exact Or.inr ⟨by simp, rfl⟩
  | cons type types =>
      cases types with
      | nil => exact Or.inl ⟨type, rfl, rfl⟩
      | cons second types => exact Or.inr ⟨by simp, rfl⟩

theorem parts_join {types : List TypeExpr} (h : ∀ type ∈ types, c.parts type = [type]) :
    c.parts (c.join types) = types := by
  rcases c.join_cases types with ⟨type, rfl, hjoin⟩ | ⟨_, hjoin⟩
  · rw [hjoin, h type List.mem_cons_self]
  · rw [hjoin, parts_of]

theorem join_parts {type : TypeExpr} (h : type.IsSettled) : c.join (c.parts type) = type := by
  rcases c.parts_cases type with hparts | ⟨types, rfl⟩
  · rw [hparts]
    rfl
  · have hflat := isSettled_of.mp h
    rw [parts_of]
    rcases c.join_cases types with ⟨only, rfl, _⟩ | ⟨_, hjoin⟩
    · exact absurd rfl hflat.1
    · exact hjoin

theorem parts_settled {type : TypeExpr} (h : type.Everywhere TypeExpr.IsSettled) :
    ∀ part ∈ c.parts type, c.parts part = [part] ∧ part.Everywhere TypeExpr.IsSettled := by
  intro part hpart
  rcases c.parts_cases type with hparts | ⟨types, rfl⟩
  · rw [hparts, List.mem_singleton] at hpart
    rw [hpart]
    exact ⟨hparts, h⟩
  · rcases everywhere_of.mp h with ⟨hsettled, htypes⟩
    rw [parts_of] at hpart
    exact ⟨(isSettled_of.mp hsettled).2 part hpart, htypes part hpart⟩

theorem join_settled {types : List TypeExpr}
    (h : ∀ type ∈ types, c.parts type = [type] ∧ type.Everywhere TypeExpr.IsSettled) :
    (c.join types).Everywhere TypeExpr.IsSettled := by
  rcases c.join_cases types with ⟨type, rfl, hjoin⟩ | ⟨hlength, hjoin⟩
  · rw [hjoin]
    exact (h type List.mem_cons_self).2
  · rw [hjoin, everywhere_of, isSettled_of]
    exact ⟨⟨hlength, fun type htype => (h type htype).1⟩, fun type htype => (h type htype).2⟩

end Connective

namespace TypeExpr

theorem normalParts_settled {c : Connective} {types : List TypeExpr}
    (h : ∀ type ∈ types, type.normal.Everywhere IsSettled) :
    ∀ part ∈ normalParts c types, c.parts part = [part] ∧ part.Everywhere IsSettled := by
  intro part hpart
  rw [normalParts_eq_flatMap, List.mem_flatMap] at hpart
  rcases hpart with ⟨type, htype, hpart⟩
  exact Connective.parts_settled (h type htype) part hpart

theorem normal_settled (type : TypeExpr) : type.normal.Everywhere IsSettled := by
  induction type with
  | reference name => exact everywhere_reference.mpr trivial
  | literal value => exact everywhere_literal.mpr trivial
  | union arms ih =>
      rw [normal]
      exact Connective.join_settled (normalParts_settled ih)
  | intersection arms ih =>
      rw [normal]
      exact Connective.join_settled (normalParts_settled ih)
  | parenthesized inner ih =>
      rw [normal]
      exact ih
  | record fields ih =>
      rw [normal, Field.normalAll_eq_map, everywhere_record]
      constructor
      · intro field hfield
        rcases List.mem_map.mp hfield with ⟨original, _, rfl⟩
        rfl
      · intro field hfield
        rcases List.mem_map.mp hfield with ⟨original, horiginal, rfl⟩
        exact ih original horiginal

theorem parts_normal_join {c : Connective} {types : List TypeExpr} :
    c.parts (c.join (normalParts c types)) = normalParts c types :=
  Connective.parts_join fun part hpart =>
    (normalParts_settled (fun type _ => type.normal_settled) part hpart).1

theorem join_parts_normal (c : Connective) (type : TypeExpr) :
    c.join (c.parts type.normal) = type.normal :=
  Connective.join_parts type.normal_settled.here

theorem normal_join (c : Connective) (types : List TypeExpr) :
    (c.join types).normal = c.join (normalParts c types) := by
  rcases c.join_cases types with ⟨type, rfl, hjoin⟩ | ⟨_, hjoin⟩
  · rw [hjoin, normalParts_singleton, join_parts_normal]
  · rw [hjoin, normal_of]

end TypeExpr
end VocabTypes
