import VocabTypes.Proofs.WellFormed
import VocabTypes.Shape

/-!
# Arms

## What a public type is a union of

A union and a pair of parentheses only hold parts together.  Taken apart, the public
type of a class is its enumeration, its direct instances, its children and strings,
in whichever of its forms it is written.
-/

namespace VocabTypes

theorem Kind.isBuiltin_eq_false_iff {kind : Kind} :
    kind.isBuiltin = false ↔ kind = .rdfsClass := by
  cases kind with
  | rdfsClass => simp [isBuiltin]
  | builtin typeName doc => simp [isBuiltin]
  | booleanEnum trueUrl falseUrl doc => simp [isBuiltin]
  | dataTypeUnion members doc => simp [isBuiltin]

namespace TypeExpr

mutual

/-- The parts that a type has once its unions and parentheses are taken apart. -/
def arms : TypeExpr → List TypeExpr
  | reference name => [reference name]
  | literal value => [literal value]
  | union parts => allArms parts
  | intersection parts => [intersection parts]
  | parenthesized inner => inner.arms
  | record fields => [record fields]

/-- The parts of several types, one type after the other. -/
def allArms : List TypeExpr → List TypeExpr
  | [] => []
  | part :: parts => part.arms ++ allArms parts

end

@[simp] theorem arms_reference (name : String) : (reference name).arms = [reference name] :=
  rfl

@[simp] theorem arms_union (parts : List TypeExpr) : (union parts).arms = allArms parts :=
  rfl

@[simp] theorem arms_parenthesized (inner : TypeExpr) :
    (parenthesized inner).arms = inner.arms :=
  rfl

theorem allArms_references (names : List String) :
    allArms (names.map reference) = names.map reference := by
  induction names with
  | nil => rfl
  | cons name names ih =>
      rw [List.map_cons, allArms, ih]
      rfl

end TypeExpr

namespace Entity

/-- The enumeration of an entity, if it has values, as an arm. -/
def enumerationArms (e : Entity) : List TypeExpr :=
  match e.enumValues with
  | [] => []
  | _ :: _ => [.reference e.nameOfEnum]

theorem mem_enumerationArms_iff {e : Entity} {arm : TypeExpr} :
    arm ∈ enumerationArms e ↔ e.enumValues ≠ [] ∧ arm = .reference e.nameOfEnum := by
  unfold enumerationArms
  cases e.enumValues with
  | nil => simp
  | cons value values => simp

end Entity

namespace Registry

/-!
# The forms of a public type
-/

theorem arms_directShape (r : Registry) (o : Options) (e : Entity) :
    (r.directShape o e).arms = [r.directShape o e] := by
  unfold directShape
  cases r.extendsBuiltin e with
  | true => rfl
  | false => rfl

theorem otherArms_eq_references (r : Registry) (e : Entity) :
    ∃ names : List String, r.otherArms e = names.map TypeExpr.reference := by
  unfold otherArms
  exists (r.childrenInOrder e).map Entity.name ++ if r.admitsString e then ["string"] else []
  rw [List.map_append, List.map_map]
  cases r.admitsString e with
  | true => rfl
  | false => rfl

theorem arms_instanceShape (r : Registry) (o : Options) (e : Entity) :
    (r.instanceShape o e).arms = r.directShape o e :: r.otherArms e := by
  have hdirect := r.arms_directShape o e
  rcases r.otherArms_eq_references e with ⟨names, hnames⟩
  unfold instanceShape
  rw [hnames]
  cases names with
  | nil => exact hdirect
  | cons name names =>
      cases names with
      | nil => simp [TypeExpr.allArms, hdirect]
      | cons second names =>
          simp [TypeExpr.allArms, hdirect, TypeExpr.allArms_references]

theorem arms_publicShape (r : Registry) (o : Options) (e : Entity) :
    (r.publicShape o e).arms =
      e.enumerationArms ++ r.directShape o e :: r.otherArms e := by
  unfold publicShape Entity.enumerationArms
  cases e.enumValues with
  | nil => exact r.arms_instanceShape o e
  | cons value values => simp [TypeExpr.allArms, r.arms_instanceShape o e]

/-!
# Children and parents
-/

theorem Mirrored.mem_children_iff {r : Registry} (h : r.Mirrored) {id child : EntityId}
    {e : Entity} (he : r.entity? id = some e) : child ∈ e.children ↔ r.IsParent child id := by
  rw [IsParent, ← childrenOf_of_entity? he, ← List.count_pos_iff, ← List.count_pos_iff,
    h id child]

theorem mem_childrenInOrder_iff {r : Registry} {e below : Entity} :
    below ∈ r.childrenInOrder e ↔ ∃ child ∈ e.children, r.entity? child = some below := by
  rw [childrenInOrder, (Identifier.sortOn_perm _ _).mem_iff, resolve, List.mem_filterMap]

theorem WellFormed.mem_otherArms_iff {r : Registry} (h : r.WellFormed) {id : EntityId}
    {e : Entity} (he : r.entity? id = some e) {arm : TypeExpr} :
    arm ∈ r.otherArms e ↔
      (∃ child below, r.IsParent child id ∧ r.entity? child = some below ∧
        arm = .reference below.name) ∨
        r.admitsString e = true ∧ arm = .string := by
  rw [otherArms, List.mem_append]
  apply or_congr
  · rw [List.mem_map]
    constructor
    · intro hmem
      rcases hmem with ⟨below, hbelow, harm⟩
      rcases mem_childrenInOrder_iff.mp hbelow with ⟨child, hchild, hentity⟩
      exact ⟨child, below, (h.mirrored.mem_children_iff he).mp hchild, hentity, harm.symm⟩
    · intro hmem
      rcases hmem with ⟨child, below, hparent, hentity, harm⟩
      have hchild := (h.mirrored.mem_children_iff he).mpr hparent
      exact ⟨below, mem_childrenInOrder_iff.mpr ⟨child, hchild, hentity⟩, harm.symm⟩
  · cases r.admitsString e with
    | true => simp
    | false => simp

end Registry
end VocabTypes
