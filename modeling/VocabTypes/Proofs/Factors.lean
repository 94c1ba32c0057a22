import VocabTypes.Proofs.WellFormed
import VocabTypes.Shape

/-!
# Factors

## What a base type is an intersection of

An intersection only holds parts together.  Taken apart, the base type of an entity is
the names of its parents' base types, one for each parent, and the record of its own
fields, if it has any.  A root has the identifier at least, so something is always
there.
-/

namespace VocabTypes
namespace TypeExpr

mutual

/-- The parts that a type has once its intersections are taken apart. -/
def factors : TypeExpr → List TypeExpr
  | reference name => [reference name]
  | literal value => [literal value]
  | union arms => [union arms]
  | intersection parts => allFactors parts
  | parenthesized inner => [parenthesized inner]
  | record fields => [record fields]

/-- The parts of several types, one type after the other. -/
def allFactors : List TypeExpr → List TypeExpr
  | [] => []
  | part :: parts => part.factors ++ allFactors parts

end

@[simp] theorem factors_reference (name : String) :
    (reference name).factors = [reference name] :=
  rfl

@[simp] theorem factors_intersection (parts : List TypeExpr) :
    (intersection parts).factors = allFactors parts :=
  rfl

@[simp] theorem factors_record (fields : List Field) :
    (record fields).factors = [record fields] :=
  rfl

theorem allFactors_references (names : List String) :
    allFactors (names.map reference) = names.map reference := by
  induction names with
  | nil => rfl
  | cons name names ih =>
      rw [List.map_cons, allFactors, ih]
      rfl

/-- The parts of a type that may be missing. -/
def factorsOf? (type? : Option TypeExpr) : List TypeExpr :=
  (type?.map factors).getD []

theorem factors_both {first second : Option TypeExpr} (h : first ≠ none ∨ second ≠ none) :
    (both first second).factors = factorsOf? first ++ factorsOf? second := by
  cases first with
  | none =>
      cases second with
      | none =>
          rcases h with hnone | hnone
          · exact absurd rfl hnone
          · exact absurd rfl hnone
      | some only => rfl
  | some type =>
      cases second with
      | none => simp [both, factorsOf?]
      | some other => simp [both, factorsOf?, allFactors]

end TypeExpr

/-!
# Own fields
-/

theorem Property.isKept_iff {o : Options} {p : Property} :
    p.isKept o = true ↔ p.deprecated = false ∨ o.skipDeprecatedProperties = false := by
  cases hskip : o.skipDeprecatedProperties with
  | true => simp [isKept, hskip]
  | false => simp [isKept, hskip]

namespace Entity

theorem mem_ownFields_iff {o : Options} {e : Entity} {field : Field} :
    field ∈ e.ownFields o ↔
      (e.parents = [] ∧ field = identityField o) ∨
        ∃ p ∈ e.properties, p.isKept o = true ∧ field = p.field o := by
  have hproperties : ∀ p, p ∈ e.propertiesInOrder ↔ p ∈ e.properties := by
    intro p
    exact (Identifier.sortOn_perm Property.id e.properties).mem_iff
  have hkept : (field ∈ (e.propertiesInOrder.filter fun p => p.isKept o).map fun p => p.field o) ↔
      ∃ p ∈ e.properties, p.isKept o = true ∧ field = p.field o := by
    simp only [List.mem_map, List.mem_filter, hproperties, and_assoc, eq_comm]
  rw [ownFields, List.mem_append, hkept]
  cases hparents : e.parents with
  | nil => simp [isRoot, hparents]
  | cons parent parents => simp [isRoot, hparents]

theorem factorsOf?_ownRecord? {o : Options} {e : Entity} :
    TypeExpr.factorsOf? (e.ownRecord? o) =
      if e.ownFields o = [] then [] else [.record (e.ownFields o)] := by
  unfold ownRecord?
  cases e.ownFields o with
  | nil => rfl
  | cons field fields => rfl

theorem nameOfBase_of_builtin {e : Entity} (hbuiltin : e.kind.isBuiltin = true) :
    e.nameOfBase = e.name := by
  rw [nameOfBase, if_pos hbuiltin]

theorem ownRecord?_ne_none_of_root {o : Options} {e : Entity} (hroot : e.parents = []) :
    e.ownRecord? o ≠ none := by
  simp [ownRecord?, ownFields, isRoot, hroot]

end Entity

/-!
# The forms of a base type
-/

namespace Registry

theorem factorsOf?_parentBase? (r : Registry) (e : Entity) :
    TypeExpr.factorsOf? (r.parentBase? e) =
      (r.resolve e.parents).map fun parent => .reference parent.nameOfBase := by
  unfold parentBase?
  cases r.resolve e.parents with
  | nil => rfl
  | cons parent parents =>
      cases parents with
      | nil => rfl
      | cons second parents =>
          have hnames := TypeExpr.allFactors_references
            ((parent :: second :: parents).map Entity.nameOfBase)
          rw [List.map_map] at hnames
          exact hnames

theorem Issued.parentBase?_ne_none {r : Registry} (h : r.Issued) {id : EntityId} {e : Entity}
    (he : r.entity? id = some e) (hparents : e.parents ≠ []) : r.parentBase? e ≠ none := by
  have hresolved : r.resolve e.parents ≠ [] := resolve_ne_nil (h.parents_lt he) hparents
  unfold parentBase?
  cases hcase : r.resolve e.parents with
  | nil => exact absurd hcase hresolved
  | cons parent parents =>
      cases parents with
      | nil => exact Option.some_ne_none _
      | cons second parents => exact Option.some_ne_none _

/-- A base type is never made of nothing. -/
theorem Issued.parentBase?_or_ownRecord? {r : Registry} (h : r.Issued) {o : Options}
    {id : EntityId} {e : Entity} (he : r.entity? id = some e) :
    r.parentBase? e ≠ none ∨ e.ownRecord? o ≠ none := by
  by_cases hroot : e.parents = []
  · exact Or.inr (Entity.ownRecord?_ne_none_of_root hroot)
  · exact Or.inl (h.parentBase?_ne_none he hroot)

/-- A base type is the base types of the parents and the record of the own fields. -/
theorem Issued.factors_baseShape {r : Registry} (h : r.Issued) {o : Options} {id : EntityId}
    {e : Entity} (he : r.entity? id = some e) :
    (r.baseShape o e).factors =
      ((r.resolve e.parents).map fun parent => .reference parent.nameOfBase) ++
        if e.ownFields o = [] then [] else [.record (e.ownFields o)] := by
  rw [baseShape, TypeExpr.factors_both (h.parentBase?_or_ownRecord? he),
    factorsOf?_parentBase?, Entity.factorsOf?_ownRecord?]

end Registry
end VocabTypes
