import Mathlib.Data.List.Basic
import Mathlib.Data.List.Nodup
import Mathlib.Data.List.Pairwise
import VocabTypes.Listing
import VocabTypes.Proofs.Order

/-!
# Declared names

## Finding a declaration by its name

When no name is declared twice, a name leads to one declaration of one entity.  In
particular the name of a class leads to its public type, and no class is named like
the base type or the enumeration of another one.
-/

namespace VocabTypes

/-- The type that a listing declares under a name. -/
def Listing.typeNamed? (listing : Listing) (name : String) : Option TypeExpr :=
  (listing.declarations.find? fun d => d.name == name).bind Declaration.type?

theorem find?_of_nodup_map {α : Type} {key : α → String} {items : List α}
    (hkeys : (items.map key).Nodup) {item : α} (hitem : item ∈ items) :
    items.find? (fun other => key other == key item) = some item := by
  cases hfound : items.find? fun other => key other == key item with
  | none =>
      have hself := List.find?_eq_none.mp hfound item hitem
      rw [beq_self_eq_true] at hself
      exact absurd rfl hself
  | some other =>
      have hother := List.mem_of_find?_eq_some hfound
      have hkey : key other = key item := by
        simpa using List.find?_some hfound
      rw [List.inj_on_of_nodup_map hkeys hother hitem hkey]

theorem Entity.enumValuesInOrder_eq_nil_iff {e : Entity} :
    e.enumValuesInOrder = [] ↔ e.enumValues = [] := by
  have hperm : e.enumValuesInOrder.Perm e.enumValues := Identifier.sortOn_perm _ _
  constructor
  · intro h
    rw [h] at hperm
    exact hperm.nil_eq.symm
  · intro h
    rw [h] at hperm
    exact hperm.eq_nil

/-!
# What is declared for an entity
-/

/-- The names that are declared for an entity. -/
def Entity.declaredNames (e : Entity) : List String :=
  match e.kind, e.enumValues with
  | .rdfsClass, [] => [e.nameOfBase, e.name]
  | .rdfsClass, _ :: _ => [e.nameOfEnum, e.nameOfBase, e.name]
  | _, _ => [e.name]

namespace Entity

theorem declaredNames_of_class {e : Entity} (hclass : e.kind = .rdfsClass)
    (hvalues : e.enumValues = []) : e.declaredNames = [e.nameOfBase, e.name] := by
  rw [declaredNames, hclass, hvalues]

theorem declaredNames_of_values {e : Entity} (hclass : e.kind = .rdfsClass)
    (hvalues : e.enumValues ≠ []) :
    e.declaredNames = [e.nameOfEnum, e.nameOfBase, e.name] := by
  rw [declaredNames, hclass]
  cases hcase : e.enumValues with
  | nil => exact absurd hcase hvalues
  | cons value values => rfl

theorem name_mem_declaredNames (e : Entity) : e.name ∈ e.declaredNames := by
  unfold declaredNames
  split
  · simp
  · simp
  · simp

theorem nameOfBase_mem_declaredNames {e : Entity} (hclass : e.kind = .rdfsClass) :
    e.nameOfBase ∈ e.declaredNames := by
  by_cases hvalues : e.enumValues = []
  · simp [declaredNames_of_class hclass hvalues]
  · simp [declaredNames_of_values hclass hvalues]

theorem nameOfEnum_mem_declaredNames {e : Entity} (hclass : e.kind = .rdfsClass)
    (hvalues : e.enumValues ≠ []) : e.nameOfEnum ∈ e.declaredNames := by
  simp [declaredNames_of_values hclass hvalues]

/-!
# Suffixes

The name of a class is told apart from the names made out of it by their length, and
names with a suffix from other names by their last letter.
-/

theorem ne_append_of_length {name suffix : String} (hsuffix : suffix.length ≠ 0) :
    name ≠ name ++ suffix := by
  intro hsame
  have hlength := congrArg String.length hsame
  rw [String.length_append] at hlength
  exact hsuffix (Nat.left_eq_add.mp hlength)

theorem append_ne_of_getLast? {name suffix whole : String} (hsuffix : suffix.toList ≠ [])
    (hlast : suffix.toList.getLast? ≠ whole.toList.getLast?) : name ++ suffix ≠ whole := by
  intro hsame
  apply hlast
  rw [← hsame, String.toList_append, List.getLast?_append_of_ne_nil _ hsuffix]

theorem nameOfBase_of_class {e : Entity} (hclass : e.kind = .rdfsClass) :
    e.nameOfBase = e.name ++ "Base" := by
  rw [nameOfBase, hclass]
  rfl

theorem name_ne_nameOfBase {e : Entity} (hclass : e.kind = .rdfsClass) :
    e.name ≠ e.nameOfBase := by
  rw [nameOfBase_of_class hclass]
  exact ne_append_of_length (by decide)

theorem name_ne_nameOfEnum (e : Entity) : e.name ≠ e.nameOfEnum :=
  ne_append_of_length (by decide)

theorem nameOfBase_ne_string {e : Entity} (hclass : e.kind = .rdfsClass) :
    e.nameOfBase ≠ "string" := by
  rw [nameOfBase_of_class hclass]
  exact append_ne_of_getLast? (by decide) (by decide)

theorem nameOfEnum_ne_string (e : Entity) : e.nameOfEnum ≠ "string" :=
  append_ne_of_getLast? (by decide) (by decide)

end Entity

namespace Registry

theorem declarations_of_class {r : Registry} {o : Options} {e : Entity}
    (hclass : e.kind = .rdfsClass) : r.declarations o e = r.declarationsOfClass o e := by
  rw [declarations, hclass]

theorem map_name_declarations (r : Registry) (o : Options) (e : Entity) :
    (r.declarations o e).map Declaration.name = e.declaredNames := by
  cases hkind : e.kind with
  | rdfsClass =>
      rw [declarations_of_class hkind, declarationsOfClass, Entity.enumeration]
      by_cases hvalues : e.enumValues = []
      · rw [Entity.declaredNames_of_class hkind hvalues,
          Entity.enumValuesInOrder_eq_nil_iff.mpr hvalues]
        rfl
      · rw [Entity.declaredNames_of_values hkind hvalues]
        cases hsorted : e.enumValuesInOrder with
        | nil => exact absurd (Entity.enumValuesInOrder_eq_nil_iff.mp hsorted) hvalues
        | cons value values => rfl
  | builtin typeName doc =>
      rw [declarations, Entity.declaredNames, hkind]
      rfl
  | booleanEnum trueUrl falseUrl doc =>
      rw [declarations, Entity.declaredNames, hkind]
      rfl
  | dataTypeUnion members doc =>
      rw [declarations, Entity.declaredNames, hkind]
      rfl

/-!
# One name, one entity
-/

/-- No name is declared twice. -/
def NamesDistinct (r : Registry) (o : Options) : Prop :=
  ((r.listing o).declarations.map Declaration.name).Nodup

theorem namesDistinct_iff {r : Registry} {o : Options} :
    r.NamesDistinct o ↔ (r.entities.flatMap Entity.declaredNames).Nodup := by
  have hnames : (r.listing o).declarations.map Declaration.name =
      r.entitiesInOrder.flatMap Entity.declaredNames := by
    rw [← funext (r.map_name_declarations o)]
    exact List.map_flatMap
  rw [NamesDistinct, hnames]
  exact (r.entitiesInOrder_perm.flatMap_right _).nodup_iff

theorem NamesDistinct.entity_eq {r : Registry} {o : Options} (h : r.NamesDistinct o)
    {e f : Entity} (he : e ∈ r.entities) (hf : f ∈ r.entities) {name : String}
    (hname : name ∈ e.declaredNames) (hother : name ∈ f.declaredNames) : e = f := by
  rw [namesDistinct_iff, List.nodup_flatMap] at h
  have hsymm : Std.Symm (Function.onFun List.Disjoint Entity.declaredNames) :=
    ⟨fun _ _ hdisjoint _ hright hleft => hdisjoint hleft hright⟩
  by_contra hne
  exact h.right.forall he hf hne hname hother

theorem NamesDistinct.typeNamed? {r : Registry} {o : Options} (h : r.NamesDistinct o)
    {e : Entity} (he : e ∈ r.entities) (hclass : e.kind = .rdfsClass) :
    (r.listing o).typeNamed? e.name = some (r.publicShape o e) := by
  have hmem : Declaration.typeAlias e.name (r.documentation e) (r.publicShape o e) ∈
      (r.listing o).declarations := by
    apply List.mem_flatMap.mpr
    refine ⟨e, mem_entitiesInOrder_iff.mpr he, ?_⟩
    rw [declarations_of_class hclass, declarationsOfClass]
    simp
  have hfound : ((r.listing o).declarations.find? fun d => d.name == e.name) =
      some (.typeAlias e.name (r.documentation e) (r.publicShape o e)) :=
    find?_of_nodup_map h hmem
  rw [Listing.typeNamed?, hfound]
  rfl

theorem NamesDistinct.typeNamed?_nameOfBase {r : Registry} {o : Options}
    (h : r.NamesDistinct o) {e : Entity} (he : e ∈ r.entities) (hclass : e.kind = .rdfsClass) :
    (r.listing o).typeNamed? e.nameOfBase = some (r.baseShape o e) := by
  have hmem : Declaration.typeAlias e.nameOfBase none (r.baseShape o e) ∈
      (r.listing o).declarations := by
    apply List.mem_flatMap.mpr
    refine ⟨e, mem_entitiesInOrder_iff.mpr he, ?_⟩
    rw [declarations_of_class hclass, declarationsOfClass]
    simp
  have hfound : ((r.listing o).declarations.find? fun d => d.name == e.nameOfBase) =
      some (.typeAlias e.nameOfBase none (r.baseShape o e)) :=
    find?_of_nodup_map h hmem
  rw [Listing.typeNamed?, hfound]
  rfl

end Registry
end VocabTypes
