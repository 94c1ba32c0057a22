import VocabTypes.Proofs.DeclaredNames

/-!
# Name clashes

## When a listing declares a name twice

Entities are told apart by IRI but declared by name, and a class declares up to two more
names, made of its own name and a suffix.  Names with different suffixes differ, and names
with one suffix differ as the names before it do.  What remains are three ways in which two
declarations can meet: two entities of one name, and an entity that is named like the base
type or like the enumeration of a class.
-/

namespace VocabTypes

/-!
# Names with suffixes
-/

namespace Entity

/-- Every entity declares its name, and a class its base type and, given values, an enumeration. -/
theorem mem_declaredNames_iff {e : Entity} {name : String} :
    name ∈ e.declaredNames ↔
      name = e.name ∨ (e.kind = .rdfsClass ∧ name = e.name ++ "Base") ∨
        (e.kind = .rdfsClass ∧ e.enumValues ≠ [] ∧ name = e.name ++ "Enum") := by
  by_cases hclass : e.kind = .rdfsClass
  · by_cases hvalues : e.enumValues = []
    · rw [declaredNames_of_class hclass hvalues, nameOfBase_of_class hclass]
      simp [hclass, hvalues, or_comm]
    · rw [declaredNames_of_values hclass hvalues, nameOfBase_of_class hclass, nameOfEnum]
      simp [hclass, hvalues]
      tauto
  · have hnames : e.declaredNames = [e.name] := by
      unfold declaredNames
      split
      · contradiction
      · contradiction
      · rfl
    simp [hnames, hclass]

theorem append_Base_ne_append_Enum (first second : String) :
    first ++ "Base" ≠ second ++ "Enum" := by
  apply append_ne_of_getLast? (by decide)
  rw [String.toList_append, List.getLast?_append_of_ne_nil _ (by decide)]
  decide

theorem nodup_declaredNames (e : Entity) : e.declaredNames.Nodup := by
  unfold declaredNames
  split
  · next hclass _ => simp [(name_ne_nameOfBase hclass).symm]
  · next hclass _ =>
      have hbase : e.nameOfEnum ≠ e.nameOfBase := by
        rw [nameOfBase_of_class hclass]
        exact (append_Base_ne_append_Enum e.name e.name).symm
      simp [hbase, (name_ne_nameOfEnum e).symm, (name_ne_nameOfBase hclass).symm]
  · exact List.nodup_singleton e.name

end Entity

/-!
# The three conditions
-/

namespace Registry

/-- No two entities have one name, and none is named like what a class declares beside itself. -/
structure ClashFree (r : Registry) : Prop where
  names : (r.entities.map Entity.name).Nodup
  bases : ∀ e ∈ r.entities, ∀ c ∈ r.entities, c.kind = .rdfsClass → e.name ≠ c.name ++ "Base"
  enumerations : ∀ e ∈ r.entities, ∀ c ∈ r.entities, c.kind = .rdfsClass → c.enumValues ≠ [] →
    e.name ≠ c.name ++ "Enum"

/-- Entities that declare the same name have the same name. -/
theorem ClashFree.name_eq {r : Registry} (h : r.ClashFree) {e f : Entity} (he : e ∈ r.entities)
    (hf : f ∈ r.entities) {name : String} (hname : name ∈ e.declaredNames)
    (hother : name ∈ f.declaredNames) : e.name = f.name := by
  rcases Entity.mem_declaredNames_iff.mp hname with rfl | ⟨hclass, rfl⟩ | ⟨hclass, hvalues, rfl⟩
  · rcases Entity.mem_declaredNames_iff.mp hother with hsame | ⟨hclass, hbase⟩ |
      ⟨hclass, hvalues, henum⟩
    · exact hsame
    · exact absurd hbase (h.bases e he f hf hclass)
    · exact absurd henum (h.enumerations e he f hf hclass hvalues)
  · rcases Entity.mem_declaredNames_iff.mp hother with hsame | ⟨_, hbase⟩ | ⟨_, _, henum⟩
    · exact absurd hsame.symm (h.bases f hf e he hclass)
    · exact (String.append_left_inj "Base").mp hbase
    · exact absurd henum (Entity.append_Base_ne_append_Enum e.name f.name)
  · rcases Entity.mem_declaredNames_iff.mp hother with hsame | ⟨_, hbase⟩ | ⟨_, _, henum⟩
    · exact absurd hsame.symm (h.enumerations f hf e he hclass hvalues)
    · exact absurd hbase.symm (Entity.append_Base_ne_append_Enum f.name e.name)
    · exact (String.append_left_inj "Enum").mp henum

theorem ClashFree.namesDistinct {r : Registry} (h : r.ClashFree) (o : Options) :
    r.NamesDistinct o := by
  rw [namesDistinct_iff, List.nodup_flatMap]
  refine ⟨fun e _ => e.nodup_declaredNames, ?_⟩
  apply (List.pairwise_map.mp h.names).imp_of_mem
  intro e f he hf hne name hname hother
  exact hne (h.name_eq he hf hname hother)

theorem NamesDistinct.clashFree {r : Registry} {o : Options} (h : r.NamesDistinct o) :
    r.ClashFree where
  names := by
    have hdisjoint := (List.nodup_flatMap.mp (namesDistinct_iff.mp h)).right
    apply List.pairwise_map.mpr
    apply hdisjoint.imp
    intro e f hnames hsame
    exact hnames e.name_mem_declaredNames (hsame ▸ f.name_mem_declaredNames)
  bases := by
    intro e he c hc hclass hsame
    -- The class would be the entity that has the longer name.
    have hbase : e.name ∈ c.declaredNames :=
      Entity.mem_declaredNames_iff.mpr (Or.inr (Or.inl ⟨hclass, hsame⟩))
    have heq := h.entity_eq he hc e.name_mem_declaredNames hbase
    rw [heq] at hsame
    exact Entity.ne_append_of_length (by decide) hsame
  enumerations := by
    intro e he c hc hclass hvalues hsame
    have henum : e.name ∈ c.declaredNames :=
      Entity.mem_declaredNames_iff.mpr (Or.inr (Or.inr ⟨hclass, hvalues, hsame⟩))
    have heq := h.entity_eq he hc e.name_mem_declaredNames henum
    rw [heq] at hsame
    exact Entity.ne_append_of_length (by decide) hsame

/--
The names in a listing are pairwise distinct just if no two entities have one name, no
entity is named like the base type of a class, and no entity is named like the enumeration
of a class with values.  The options have no part in it.
-/
theorem names_distinct_iff_clashFree (r : Registry) (o : Options) :
    ((r.listing o).declarations.map Declaration.name).Nodup ↔ r.ClashFree := by
  constructor
  · intro hdistinct
    exact NamesDistinct.clashFree hdistinct
  · intro hfree
    exact hfree.namesDistinct o

end Registry
end VocabTypes
