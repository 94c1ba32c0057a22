import VocabTypes.Proofs.Factors
import VocabTypes.Proofs.Nodes
import VocabTypes.Proofs.StableSort

/-!
# Parts of a base type

## One list for all forms

The form of a base type depends on how many parents there are and on whether there are
fields.  Taken apart it is one list in every form: the base types of the parents, in the
order in which the parents were given, and at most one record, which the identifier of a
root opens and the kept properties fill.  A field is looked for in this record only.
-/

namespace VocabTypes
namespace TypeExpr

/-!
# Fields and factors

Looking for a field goes through intersections, so the parts decide.
-/

theorem anyHasField_eq_any_allFactors {name : String} {parts : List TypeExpr}
    (h : ∀ part ∈ parts, part.hasField name = part.factors.any fun factor => factor.hasField name) :
    anyHasField name parts = (allFactors parts).any fun factor => factor.hasField name := by
  induction parts with
  | nil => rfl
  | cons part parts ih =>
      rcases List.forall_mem_cons.mp h with ⟨hpart, hparts⟩
      rw [anyHasField, allFactors, List.any_append, ← hpart, ih hparts]

/-- A type has a field just if one of its parts has it. -/
theorem hasField_eq_any_factors (name : String) (type : TypeExpr) :
    type.hasField name = type.factors.any fun factor => factor.hasField name := by
  induction type with
  | reference _ => rfl
  | literal _ => rfl
  | union arms _ => simp [factors]
  | intersection parts ih => exact anyHasField_eq_any_allFactors ih
  | parenthesized inner _ => simp [factors]
  | record fields _ => simp [factors]

end TypeExpr

/-!
# The record of an entity
-/

namespace Entity

/-- The properties that become fields, in the order of the fields. -/
def keptInOrder (o : Options) (e : Entity) : List Property :=
  e.propertiesInOrder.filter fun p => p.isKept o

theorem keptInOrder_eq (o : Options) (e : Entity) :
    e.keptInOrder o = Identifier.sortOn Property.id (e.properties.filter fun p => p.isKept o) :=
  Identifier.filter_sortOn Property.id _ e.properties

theorem keptInOrder_perm (o : Options) (e : Entity) :
    (e.keptInOrder o).Perm (e.properties.filter fun p => p.isKept o) := by
  rw [keptInOrder_eq]
  exact Identifier.sortOn_perm Property.id _

theorem ownFields_eq (o : Options) (e : Entity) :
    e.ownFields o =
      (if e.parents = [] then [identityField o] else []) ++
        (e.keptInOrder o).map fun p => p.field o := by
  simp only [ownFields, isRoot, List.isEmpty_iff, keptInOrder]

/-- There is a record just if there is something to put into it. -/
theorem ownFields_eq_nil_iff {o : Options} {e : Entity} :
    e.ownFields o = [] ↔ ¬ (e.parents = [] ∨ ∃ p ∈ e.properties, p.isKept o = true) := by
  simp only [List.eq_nil_iff_forall_not_mem, mem_ownFields_iff]
  constructor
  · intro hnone hsome
    rcases hsome with hroot | ⟨p, hp, hkept⟩
    · exact hnone _ (Or.inl ⟨hroot, rfl⟩)
    · exact hnone _ (Or.inr ⟨p, hp, hkept, rfl⟩)
  · intro hnone field hfield
    rcases hfield with ⟨hroot, _⟩ | ⟨p, hp, hkept, _⟩
    · exact hnone (Or.inl hroot)
    · exact hnone (Or.inr ⟨p, hp, hkept⟩)

theorem hasField_ownFields_iff {o : Options} {e : Entity} {name : String} :
    (TypeExpr.record (e.ownFields o)).hasField name = true ↔
      (name = o.idField ∧ e.parents = []) ∨
        ∃ p ∈ e.properties, p.isKept o = true ∧ name = o.context.shorten p.id := by
  rw [TypeExpr.hasField, List.any_eq_true]
  constructor
  · intro hfound
    rcases hfound with ⟨field, hfield, hname⟩
    have hname := eq_of_beq hname
    rcases mem_ownFields_iff.mp hfield with ⟨hroot, rfl⟩ | ⟨p, hp, hkept, rfl⟩
    · exact Or.inl ⟨hname.symm, hroot⟩
    · exact Or.inr ⟨p, hp, hkept, hname.symm⟩
  · intro hfound
    rcases hfound with ⟨rfl, hroot⟩ | ⟨p, hp, hkept, rfl⟩
    · exact ⟨identityField o, mem_ownFields_iff.mpr (Or.inl ⟨hroot, rfl⟩), beq_self_eq_true _⟩
    · exact ⟨p.field o, mem_ownFields_iff.mpr (Or.inr ⟨p, hp, hkept, rfl⟩), beq_self_eq_true _⟩

end Entity

namespace Registry

theorem any_hasField_parentBases (r : Registry) (e : Entity) (name : String) :
    (((r.resolve e.parents).map fun parent => TypeExpr.reference parent.nameOfBase).any
      fun factor => factor.hasField name) = false := by
  rw [List.any_map, List.any_eq_false]
  intro parent _
  exact Bool.false_ne_true

/-- A base type has the fields of its record, those of the parents being behind names. -/
theorem Issued.hasField_baseShape_iff {r : Registry} (h : r.Issued) {o : Options}
    {id : EntityId} {e : Entity} (he : r.entity? id = some e) {name : String} :
    (r.baseShape o e).hasField name = true ↔
      (name = o.idField ∧ e.parents = []) ∨
        ∃ p ∈ e.properties, p.isKept o = true ∧ name = o.context.shorten p.id := by
  rw [← Entity.hasField_ownFields_iff, TypeExpr.hasField_eq_any_factors,
    h.factors_baseShape he, List.any_append, any_hasField_parentBases, Bool.false_or]
  split
  · next hnone =>
      rw [hnone]
      rfl
  · simp

/-- The empty record is not among the forms of a base type. -/
theorem Issued.baseShape_ne_empty {r : Registry} (h : r.Issued) {o : Options}
    {id : EntityId} {e : Entity} (he : r.entity? id = some e) :
    r.baseShape o e ≠ .record [] := by
  intro hempty
  have hfactors := congrArg TypeExpr.factors hempty
  rw [h.factors_baseShape he, TypeExpr.factors_record] at hfactors
  cases hparents : r.resolve e.parents with
  | nil =>
      rw [hparents, List.map_nil, List.nil_append] at hfactors
      split at hfactors
      · cases hfactors
      · next hsome =>
          rcases List.cons_eq_cons.mp hfactors with ⟨hrecord, -⟩
          exact hsome (TypeExpr.record.inj hrecord)
  | cons parent parents =>
      rw [hparents] at hfactors
      cases hfactors

/--
A base type taken apart.

Its parts are the names of the parents' base types, one for each parent in the order of the
parents, and after them a record just if the entity is a root or has a property that is
kept.  The record opens with the identifier just if the entity is a root, and goes on with
one field for each kept property, by name and IRI of the properties and otherwise in the
order in which they were added.  There is always a part, so the empty record is never
resorted to, and the fields of a base type are those of this record.
-/
theorem base_type_taken_apart {r : Registry} (hr : r.Reachable) (o : Options) {id : EntityId}
    {e : Entity} (he : r.entity? id = some e) :
    (∃ (parents : List Entity) (kept : List Property),
      e.parents.map r.entity? = parents.map some ∧
      kept.Perm (e.properties.filter fun p => p.isKept o) ∧
      Identifier.SortedOn Property.id kept ∧
      (∀ key, Identifier.itemsWith Property.id key kept =
        Identifier.itemsWith Property.id key (e.properties.filter fun p => p.isKept o)) ∧
      (r.baseShape o e).factors =
        (parents.map fun parent => .reference parent.nameOfBase) ++
          if e.parents = [] ∨ ∃ p ∈ e.properties, p.isKept o = true then
            [.record ((if e.parents = [] then [.mayHave o.idField (.reference "string")] else []) ++
              kept.map fun p => p.field o)]
          else []) ∧
    (r.parentBase? e ≠ none ∨ e.ownRecord? o ≠ none) ∧ r.baseShape o e ≠ .record [] ∧
    ∀ name, (r.baseShape o e).hasField name = true ↔
      (name = o.idField ∧ e.parents = []) ∨
        ∃ p ∈ e.properties, p.isKept o = true ∧ name = o.context.shorten p.id := by
  have h := hr.wellFormed.issued
  refine ⟨⟨r.resolve e.parents, e.keptInOrder o, ?_, e.keptInOrder_perm o, ?_, ?_, ?_⟩,
    h.parentBase?_or_ownRecord? he, h.baseShape_ne_empty he,
    fun name => h.hasField_baseShape_iff he⟩
  · exact (map_some_resolve (h.parents_lt he)).symm
  · rw [Entity.keptInOrder_eq]
    exact Identifier.sortedOn_sortOn Property.id _
  · intro key
    rw [Entity.keptInOrder_eq]
    exact Identifier.itemsWith_sortOn Property.id key _
  · rw [h.factors_baseShape he]
    simp only [Entity.ownFields_eq_nil_iff, ite_not]
    rw [Entity.ownFields_eq]
    rfl

/-- Properties of a volume: two with one identifier, and one written like that of a root. -/
def volumeProperties : List Property :=
  [⟨⟨"year", "s:year"⟩, [], some "of the print", false⟩,
    ⟨⟨"price", "s:price"⟩, [], none, true⟩,
    ⟨⟨"code", "@id"⟩, [⟨"Code", "s:Code"⟩], none, false⟩,
    ⟨⟨"year", "s:year"⟩, [], some "of the text", false⟩]

/-- A class below another one twice over. -/
def volumeShelf : Registry :=
  empty.run
    ([.insertClass ⟨"Thing", "s:Thing"⟩ false,
      .insertClass ⟨"Work", "s:Work"⟩ false,
      .insertClass ⟨"Volume", "s:Volume"⟩ false,
      .assert 2 (Statement.subclassOf ⟨"Work", "s:Work"⟩).toFact,
      .assert 2 (Statement.subclassOf ⟨"Thing", "s:Thing"⟩).toFact,
      .assert 2 (Statement.subclassOf ⟨"Work", "s:Work"⟩).toFact] ++
      volumeProperties.map (.addProperty 2))

/-- Options under which deprecated properties are left out. -/
def currentOnly : Options :=
  { Options.standard with skipDeprecatedProperties := true }

theorem base_parts_of_volume :
    volumeShelf.Reachable ∧ ∃ volume, volumeShelf.entity? 2 = some volume ∧
      volume.parents = [1, 0, 1] ∧
      (volumeShelf.baseShape currentOnly volume).factors =
        [.reference "WorkBase", .reference "ThingBase", .reference "WorkBase",
          .record ([⟨⟨"code", "@id"⟩, [⟨"Code", "s:Code"⟩], none, false⟩,
            ⟨⟨"year", "s:year"⟩, [], some "of the print", false⟩,
            ⟨⟨"year", "s:year"⟩, [], some "of the text", false⟩].map
              (Property.field currentOnly))] ∧
      (volumeShelf.baseShape currentOnly volume).hasField "@id" = true := by
  have hr : volumeShelf.Reachable := ⟨_, rfl⟩
  have hvolume : (volumeShelf.entity? 2).map (fun e => (e.parents, e.properties)) =
      some ([1, 0, 1], volumeProperties) := by
    cbv
  have hresolved : (volumeShelf.resolve [1, 0, 1]).map
      (fun parent => TypeExpr.reference parent.nameOfBase) =
        [.reference "WorkBase", .reference "ThingBase", .reference "WorkBase"] := by
    cbv
  have hordered : Identifier.sortOn Property.id
      (volumeProperties.filter fun p => p.isKept currentOnly) =
        [⟨⟨"code", "@id"⟩, [⟨"Code", "s:Code"⟩], none, false⟩,
          ⟨⟨"year", "s:year"⟩, [], some "of the print", false⟩,
          ⟨⟨"year", "s:year"⟩, [], some "of the text", false⟩] := by
    cbv
  rcases Option.map_eq_some_iff.mp hvolume with ⟨volume, hvolume, hvolumeIs⟩
  rcases Prod.mk.inj hvolumeIs with ⟨hparents, hproperties⟩
  rcases base_type_taken_apart hr currentOnly hvolume with
    ⟨⟨parents, kept, hfound, _, hsorted, hitems, hfactors⟩, _, _, hfields⟩
  rw [hproperties] at hfactors hitems hfields
  have hparentsAre : volumeShelf.resolve [1, 0, 1] = parents := by
    have hsome := congrArg (List.filterMap id) hfound
    rw [hparents] at hsome
    simpa [List.filterMap_map, resolve] using hsome
  have hkept := Identifier.eq_sortOn_iff.mpr ⟨hsorted, hitems⟩
  refine ⟨hr, volume, hvolume, hparents, ?_, ?_⟩
  · rw [hfactors, ← hparentsAre, hresolved, hkept, hordered, hparents, if_pos (by decide)]
    rfl
  · apply (hfields "@id").mpr
    exact Or.inr ⟨⟨⟨"code", "@id"⟩, [⟨"Code", "s:Code"⟩], none, false⟩, by decide⟩

end Registry
end VocabTypes
