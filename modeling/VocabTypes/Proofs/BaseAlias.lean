import VocabTypes.Proofs.Factors
import VocabTypes.Proofs.PublicAlias

/-!
# Base aliases

## What the base alias of a class carries

The base type of a class refers to the base types of its parents by name.  Following
the names round after round takes in the classes above, one level at a time, and stops
at data types.  What is left are the own fields of the class and the classes above it,
and the names of the data types right above them.
-/

namespace VocabTypes
namespace Registry

open Relation

/-!
# Following names
-/

/-- Whether a name is that of the base type of a class. -/
def namesBase (r : Registry) (name : String) : Bool :=
  r.entities.any fun e => e.kind == .rdfsClass && e.nameOfBase == name

/-- The factors that stand for a factor: those of the alias, if it is a base type's name. -/
def unfoldFactor (r : Registry) (listing : Listing) : TypeExpr → List TypeExpr
  | .reference name =>
      if r.namesBase name then
        ((listing.typeNamed? name).map TypeExpr.factors).getD [.reference name]
      else [.reference name]
  | factor => [factor]

/-- No factor is the name of the base type of a class any more. -/
def BaseSettled (r : Registry) (factors : List TypeExpr) : Prop :=
  ∀ name, .reference name ∈ factors → r.namesBase name = false

/-- The type declared under a name, taken apart and followed for some rounds until it settles. -/
def BaseExpandsTo (r : Registry) (listing : Listing) (name : String)
    (factors : List TypeExpr) : Prop :=
  ∃ type rounds, listing.typeNamed? name = some type ∧
    (Rounds.round (r.unfoldFactor listing))^[rounds] type.factors = factors ∧
      r.BaseSettled factors

/-!
# Factors of one class
-/

/-- A factor that is the name of the base type of the class at a position. -/
def IsBaseName (r : Registry) (id : EntityId) (factor : TypeExpr) : Prop :=
  ∃ e, r.entity? id = some e ∧ e.kind = .rdfsClass ∧ factor = .reference e.nameOfBase

/-- The factors that the base alias of a class brings besides the names of base types. -/
inductive OwnFactor (r : Registry) (o : Options) (id : EntityId) : TypeExpr → Prop where
  | record {e : Entity} (issued : r.entity? id = some e) (kind : e.kind = .rdfsClass)
      (fields : e.ownFields o ≠ []) : OwnFactor r o id (.record (e.ownFields o))
  | builtin {parent : EntityId} {above : Entity} (class_ : r.IsClass id)
      (parent_ : r.IsParent id parent) (issued : r.entity? parent = some above)
      (kind : above.kind.isBuiltin = true) : OwnFactor r o id (.reference above.name)

theorem namesBase_iff {r : Registry} {name : String} :
    r.namesBase name = true ↔ ∃ id, r.IsBaseName id (.reference name) := by
  have hany : r.namesBase name = true ↔
      ∃ e ∈ r.entities, e.kind = .rdfsClass ∧ e.nameOfBase = name := by
    simp [namesBase]
  rw [hany]
  constructor
  · intro hnamed
    rcases hnamed with ⟨e, hmem, hclass, rfl⟩
    rcases mem_entities_iff.mp hmem with ⟨id, he⟩
    exact ⟨id, e, he, hclass, rfl⟩
  · intro hnamed
    rcases hnamed with ⟨id, e, he, hclass, hname⟩
    injection hname with hname
    exact ⟨e, mem_entities_iff.mpr ⟨id, he⟩, hclass, hname.symm⟩

theorem baseSettled_iff {r : Registry} {factors : List TypeExpr} :
    r.BaseSettled factors ↔ Rounds.Settled r.IsBaseName factors := by
  constructor
  · intro hsettled factor hfactor id hname
    rcases hname with ⟨e, he, hclass, rfl⟩
    have hnamed := namesBase_iff.mpr ⟨id, e, he, hclass, rfl⟩
    rw [hsettled _ hfactor] at hnamed
    cases hnamed
  · intro hsettled name hfactor
    rw [Bool.eq_false_iff]
    intro hnamed
    rcases namesBase_iff.mp hnamed with ⟨id, hname⟩
    exact hsettled _ hfactor id hname

/-- The parts of a base type are its own ones and the names of its parents' base types. -/
theorem Issued.mem_factors_baseShape_iff {r : Registry} (h : r.Issued) {o : Options}
    {id : EntityId} {e : Entity} (he : r.entity? id = some e) (hclass : e.kind = .rdfsClass)
    {factor : TypeExpr} :
    factor ∈ (r.baseShape o e).factors ↔
      r.OwnFactor o id factor ∨ ∃ parent, r.ClassStep id parent ∧ r.IsBaseName parent factor := by
  have hparent : ∀ parent, parent ∈ e.parents ↔ r.IsParent id parent := by
    intro parent
    rw [IsParent, parentsOf_of_entity? he]
  rw [h.factors_baseShape he, List.mem_append, List.mem_map]
  constructor
  · intro hfactor
    rcases hfactor with ⟨above, hresolved, rfl⟩ | hrecord
    · rcases List.mem_filterMap.mp hresolved with ⟨parent, hmem, habove⟩
      cases hkind : above.kind.isBuiltin with
      | true =>
          rw [Entity.nameOfBase_of_builtin hkind]
          exact Or.inl (OwnFactor.builtin ⟨e, he, hclass⟩ ((hparent parent).mp hmem) habove hkind)
      | false =>
          have haboveClass := Kind.isBuiltin_eq_false_iff.mp hkind
          refine Or.inr ⟨parent, ⟨(hparent parent).mp hmem, ⟨e, he, hclass⟩, ?_⟩, ?_⟩
          · exact ⟨above, habove, haboveClass⟩
          · exact ⟨above, habove, haboveClass, rfl⟩
    · by_cases hfields : e.ownFields o = []
      · rw [if_pos hfields] at hrecord
        cases hrecord
      · rw [if_neg hfields, List.mem_singleton] at hrecord
        rw [hrecord]
        exact Or.inl (OwnFactor.record he hclass hfields)
  · intro hfactor
    rcases hfactor with hown | ⟨parent, hstep, above, habove, _, rfl⟩
    · cases hown with
      | record hissued _ hfields =>
          rw [he] at hissued
          cases hissued
          rw [if_neg hfields]
          exact Or.inr (List.mem_singleton_self _)
      | @builtin parent above _ hstep habove hkind =>
          refine Or.inl ⟨above, List.mem_filterMap.mpr ⟨parent, ?_, habove⟩, ?_⟩
          · exact (hparent parent).mpr hstep
          · rw [Entity.nameOfBase_of_builtin hkind]
    · exact Or.inl ⟨above, List.mem_filterMap.mpr ⟨parent, (hparent parent).mpr hstep.left, habove⟩,
        rfl⟩

/-!
# The graph behind the names

The name of a data type is not that of a base type, because no name is declared twice.
-/

theorem OwnFactor.not_baseName {r : Registry} {o : Options} (hnames : r.NamesDistinct o)
    {id : EntityId} {factor : TypeExpr} (hown : r.OwnFactor o id factor) (other : EntityId) :
    ¬ r.IsBaseName other factor := by
  intro hname
  rcases hname with ⟨e, he, hclass, hfactor⟩
  cases hown with
  | record _ _ _ => cases hfactor
  | @builtin parent above _ _ habove hkind =>
      injection hfactor with hname
      have hdeclared := above.name_mem_declaredNames
      rw [hname] at hdeclared
      have hsame := hnames.entity_eq (mem_entities_iff.mpr ⟨parent, habove⟩)
        (mem_entities_iff.mpr ⟨other, he⟩) hdeclared (Entity.nameOfBase_mem_declaredNames hclass)
      rw [hsame, hclass] at hkind
      cases hkind

theorem OwnFactor.unfoldFactor_eq {r : Registry} {o : Options} (hnames : r.NamesDistinct o)
    {id : EntityId} {factor : TypeExpr} (hown : r.OwnFactor o id factor) :
    r.unfoldFactor (r.listing o) factor = [factor] := by
  have hnot := hown.not_baseName hnames
  cases hown with
  | record _ _ _ => rfl
  | builtin _ _ _ _ =>
      rw [unfoldFactor, if_neg]
      intro hnamed
      rcases namesBase_iff.mp hnamed with ⟨other, hname⟩
      exact hnot other hname

theorem NamesDistinct.unfoldFactor_nameOfBase {r : Registry} {o : Options}
    (hnames : r.NamesDistinct o) {id : EntityId} {e : Entity} (he : r.entity? id = some e)
    (hclass : e.kind = .rdfsClass) :
    r.unfoldFactor (r.listing o) (.reference e.nameOfBase) = (r.baseShape o e).factors := by
  have hnamed := namesBase_iff.mpr ⟨id, e, he, hclass, rfl⟩
  rw [unfoldFactor, if_pos hnamed,
    hnames.typeNamed?_nameOfBase (mem_entities_iff.mpr ⟨id, he⟩) hclass]
  rfl

theorem WellFormed.unfoldingFactors {r : Registry} (h : r.WellFormed) {o : Options}
    (hnames : r.NamesDistinct o) :
    Rounds.Unfolding r.ClassStep (r.OwnFactor o) r.IsBaseName
      (r.unfoldFactor (r.listing o)) where
  mem_name_iff := by
    intro id name hname factor
    rcases hname with ⟨e, he, hclass, rfl⟩
    rw [hnames.unfoldFactor_nameOfBase he hclass]
    exact h.issued.mem_factors_baseShape_iff he hclass
  own_kept := fun hown => hown.unfoldFactor_eq hnames
  own_not_name := fun hown => hown.not_baseName hnames
  named := by
    intro id parent hstep
    rcases hstep.right.right with ⟨above, habove, hclass⟩
    exact ⟨_, above, habove, hclass, rfl⟩

/-!
# The expansion of a base alias
-/

section

variable {r : Registry} {o : Options} (h : r.WellFormed) (hnames : r.NamesDistinct o)
  {id : EntityId} {e : Entity} (he : r.entity? id = some e) (hclass : e.kind = .rdfsClass)

include h hnames he hclass

theorem exists_baseExpandsTo : ∃ factors, r.BaseExpandsTo (r.listing o) e.nameOfBase factors := by
  have htype := hnames.typeNamed?_nameOfBase (mem_entities_iff.mpr ⟨id, he⟩) hclass
  refine ⟨_, _, r.size, htype, rfl, ?_⟩
  rw [baseSettled_iff, ← hnames.unfoldFactor_nameOfBase he hclass]
  apply (h.unfoldingFactors hnames).settled_of_bound ⟨e, he, hclass, rfl⟩
  intro steps above hsteps
  exact Nat.le_of_lt (h.classSteps_lt ⟨e, he, hclass⟩ hsteps)

theorem mem_iff_of_baseExpandsTo {factors : List TypeExpr}
    (hexpands : r.BaseExpandsTo (r.listing o) e.nameOfBase factors) (factor : TypeExpr) :
    factor ∈ factors ↔ ∃ above, ReflTransGen r.ClassStep id above ∧ r.OwnFactor o above factor := by
  rcases hexpands with ⟨type, rounds, htype, hrounds, hsettled⟩
  rw [hnames.typeNamed?_nameOfBase (mem_entities_iff.mpr ⟨id, he⟩) hclass] at htype
  cases htype
  rw [← hnames.unfoldFactor_nameOfBase he hclass] at hrounds
  subst hrounds
  rw [baseSettled_iff] at hsettled
  exact (h.unfoldingFactors hnames).mem_iff_of_settled ⟨e, he, hclass, rfl⟩ hsettled factor

theorem record_or_reference_of_baseExpandsTo {factors : List TypeExpr}
    (hexpands : r.BaseExpandsTo (r.listing o) e.nameOfBase factors) {factor : TypeExpr}
    (hfactor : factor ∈ factors) :
    (∃ fields, factor = .record fields) ∨ ∃ name, factor = .reference name := by
  rcases (mem_iff_of_baseExpandsTo h hnames he hclass hexpands factor).mp hfactor with
    ⟨a, _, hown⟩
  cases hown with
  | record _ _ _ => exact Or.inl ⟨_, rfl⟩
  | builtin _ _ _ _ => exact Or.inr ⟨_, rfl⟩

/-- The fields of the records are the own ones of the class and of the classes above it. -/
theorem field_mem_iff_of_baseExpandsTo {factors : List TypeExpr}
    (hexpands : r.BaseExpandsTo (r.listing o) e.nameOfBase factors) (field : Field) :
    (∃ fields, .record fields ∈ factors ∧ field ∈ fields) ↔
      ∃ a above, ReflTransGen r.ClassStep id a ∧ r.entity? a = some above ∧
        field ∈ above.ownFields o := by
  have hmem := mem_iff_of_baseExpandsTo h hnames he hclass hexpands
  have hid : r.IsClass id := ⟨e, he, hclass⟩
  constructor
  · intro hfound
    rcases hfound with ⟨fields, hrecord, hfield⟩
    rcases (hmem _).mp hrecord with ⟨a, hpath, hown⟩
    cases hown with
    | record habove _ _ => exact ⟨a, _, hpath, habove, hfield⟩
  · intro hfound
    rcases hfound with ⟨a, above, hpath, habove, hfield⟩
    have haboveClass := (hid.above hpath).kind_eq habove
    refine ⟨above.ownFields o, (hmem _).mpr ⟨a, hpath, ?_⟩, hfield⟩
    exact OwnFactor.record habove haboveClass (List.ne_nil_of_mem hfield)

/-- The names that are left are those of data types right above one of the classes. -/
theorem reference_mem_iff_of_baseExpandsTo {factors : List TypeExpr}
    (hexpands : r.BaseExpandsTo (r.listing o) e.nameOfBase factors) (name : String) :
    .reference name ∈ factors ↔
      ∃ a parent builtin, ReflTransGen r.ClassStep id a ∧ r.IsParent a parent ∧
        r.entity? parent = some builtin ∧ builtin.kind.isBuiltin = true ∧
          name = builtin.name := by
  have hid : r.IsClass id := ⟨e, he, hclass⟩
  rw [mem_iff_of_baseExpandsTo h hnames he hclass hexpands]
  constructor
  · intro hfound
    rcases hfound with ⟨a, hpath, hown⟩
    cases hown with
    | builtin _ hparent habove hkind => exact ⟨a, _, _, hpath, hparent, habove, hkind, rfl⟩
  · intro hfound
    rcases hfound with ⟨a, parent, builtin, hpath, hparent, habove, hkind, rfl⟩
    exact ⟨a, hpath, OwnFactor.builtin (hid.above hpath) hparent habove hkind⟩

end

/--
The base alias of a class, followed through the names of base types, ends in records and
names.  The fields of the records are those of the properties that the class and the
classes above it keep, and the identifier if one of these is a root.  The names are those
of the data types right above them.
-/
theorem base_alias_carries_inherited_fields {r : Registry} (hr : r.Reachable) {o : Options}
    (hnames : r.NamesDistinct o) :
    ∀ id e, r.entity? id = some e → e.kind = .rdfsClass →
      (∃ factors, r.BaseExpandsTo (r.listing o) e.nameOfBase factors) ∧
        ∀ factors, r.BaseExpandsTo (r.listing o) e.nameOfBase factors →
          (∀ factor ∈ factors,
            (∃ fields, factor = .record fields) ∨ ∃ name, factor = .reference name) ∧
          (∀ field, (∃ fields, .record fields ∈ factors ∧ field ∈ fields) ↔
            (∃ a above p, ReflTransGen r.ClassStep id a ∧ r.entity? a = some above ∧
              p ∈ above.properties ∧
                (p.deprecated = false ∨ o.skipDeprecatedProperties = false) ∧
                  field = p.field o) ∨
              field = Entity.identityField o ∧
                ∃ a above, ReflTransGen r.ClassStep id a ∧ r.entity? a = some above ∧
                  above.parents = []) ∧
          ∀ name, .reference name ∈ factors ↔
            ∃ a parent builtin, ReflTransGen r.ClassStep id a ∧ r.IsParent a parent ∧
              r.entity? parent = some builtin ∧ builtin.kind.isBuiltin = true ∧
                name = builtin.name := by
  have h := hr.wellFormed
  intro id e he hclass
  refine ⟨exists_baseExpandsTo h hnames he hclass, ?_⟩
  intro factors hexpands
  refine ⟨?_, ?_, ?_⟩
  · intro factor hfactor
    exact record_or_reference_of_baseExpandsTo h hnames he hclass hexpands hfactor
  · intro field
    rw [field_mem_iff_of_baseExpandsTo h hnames he hclass hexpands]
    simp only [Entity.mem_ownFields_iff, Property.isKept_iff]
    constructor
    · intro hfound
      rcases hfound with ⟨a, above, hpath, habove, ⟨hroot, hfield⟩ | ⟨p, hp, hkept, hfield⟩⟩
      · exact Or.inr ⟨hfield, a, above, hpath, habove, hroot⟩
      · exact Or.inl ⟨a, above, p, hpath, habove, hp, hkept, hfield⟩
    · intro hfound
      rcases hfound with
        ⟨a, above, p, hpath, habove, hp, hkept, hfield⟩ | ⟨hfield, a, above, hpath, habove, hroot⟩
      · exact ⟨a, above, hpath, habove, Or.inr ⟨p, hp, hkept, hfield⟩⟩
      · exact ⟨a, above, hpath, habove, Or.inl ⟨hroot, hfield⟩⟩
  · exact reference_mem_iff_of_baseExpandsTo h hnames he hclass hexpands

/-- Calls that put a class below another one twice over, and beside that below a data type. -/
def editionCalls : List Call :=
  [.insertClass ⟨"Thing", "s:Thing"⟩ false,
    .insertClass ⟨"Work", "s:Work"⟩ false,
    .insertClass ⟨"Edition", "s:Edition"⟩ false,
    .insertBuiltin "s/Label" "string" "",
    .assert 1 (Statement.subclassOf ⟨"Thing", "s:Thing"⟩).toFact,
    .assert 2 (Statement.subclassOf ⟨"Work", "s:Work"⟩).toFact,
    .assert 2 (Statement.subclassOf ⟨"Thing", "s:Thing"⟩).toFact,
    .assert 2 (Statement.subclassOf ⟨"Label", "s/Label"⟩).toFact,
    .addProperty 0 ⟨⟨"title", "s:title"⟩, [], none, false⟩,
    .addProperty 1 ⟨⟨"code", "s:code"⟩, [], none, true⟩]

def editionRegistry : Registry :=
  empty.run editionCalls

theorem base_alias_of_edition :
    editionRegistry.Reachable ∧ editionRegistry.NamesDistinct .standard ∧
      ∃ factors, editionRegistry.BaseExpandsTo (editionRegistry.listing .standard) "EditionBase"
          factors ∧
        (∃ fields, .record fields ∈ factors ∧
          Property.field .standard ⟨⟨"title", "s:title"⟩, [], none, false⟩ ∈ fields) ∧
        (∃ fields, .record fields ∈ factors ∧ Entity.identityField .standard ∈ fields) ∧
        .reference "Label" ∈ factors := by
  have hr : editionRegistry.Reachable := ⟨editionCalls, rfl⟩
  have hdeclared : editionRegistry.entities.flatMap Entity.declaredNames =
      ["ThingBase", "Thing", "WorkBase", "Work", "EditionBase", "Edition", "Label"] := by
    cbv
  have hnames : editionRegistry.NamesDistinct .standard := by
    rw [namesDistinct_iff, hdeclared]
    decide
  have hthing : (editionRegistry.entity? 0).map (fun e => (e.kind, e.parents, e.properties)) =
      some (.rdfsClass, [], [⟨⟨"title", "s:title"⟩, [], none, false⟩]) := by
    cbv
  have hedition : (editionRegistry.entity? 2).map (fun e => (e.kind, e.nameOfBase)) =
      some (.rdfsClass, "EditionBase") := by
    cbv
  have hlabel : (editionRegistry.entity? 3).map (fun e => (e.kind.isBuiltin, e.name)) =
      some (true, "Label") := by
    cbv
  have hparents : editionRegistry.parentsOf 2 = [1, 0, 3] := by
    cbv
  rcases Option.map_eq_some_iff.mp hthing with ⟨thing, hthing, hthingIs⟩
  rcases Option.map_eq_some_iff.mp hedition with ⟨edition, hedition, heditionIs⟩
  rcases Option.map_eq_some_iff.mp hlabel with ⟨label, hlabel, hlabelIs⟩
  simp only [Prod.mk.injEq] at hthingIs heditionIs hlabelIs
  have hstep : editionRegistry.ClassStep 2 0 := by
    refine ⟨by simp [IsParent, hparents], ⟨edition, hedition, heditionIs.left⟩, ?_⟩
    exact ⟨thing, hthing, hthingIs.left⟩
  have hpath := ReflTransGen.single hstep
  rcases base_alias_carries_inherited_fields hr hnames 2 edition hedition heditionIs.left with
    ⟨⟨factors, hexpands⟩, hwhich⟩
  rcases hwhich factors hexpands with ⟨_, hfields, hreferences⟩
  rw [heditionIs.right] at hexpands
  refine ⟨hr, hnames, factors, hexpands, (hfields _).mpr ?_, (hfields _).mpr ?_,
    (hreferences _).mpr ?_⟩
  · refine Or.inl ⟨0, thing, _, hpath, hthing, ?_, Or.inl rfl, rfl⟩
    rw [hthingIs.right.right]
    exact List.mem_singleton_self _
  · exact Or.inr ⟨rfl, 0, thing, hpath, hthing, hthingIs.right.left⟩
  · refine ⟨2, 3, label, ReflTransGen.refl, ?_, hlabel, hlabelIs.left, hlabelIs.right.symm⟩
    simp [IsParent, hparents]

end Registry
end VocabTypes
