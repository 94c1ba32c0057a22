import VocabTypes.Proofs.Nodes
import VocabTypes.Proofs.Representation

/-!
# Inheritance

## What an entity has from the entities above it

An entity is backed by a data type if a builtin stands strictly above it, and it admits
strings if it or an entity above it was registered that way.  Both are asked of the graph
of parents as it is at the end, so everything below an entity has them with it.  Instances
of a class are tagged with its name just if no data type backs it.
-/

namespace VocabTypes

/-- A field stands in some record within a type. -/
def TypeExpr.Contains (type : TypeExpr) (field : Field) : Prop :=
  ∃ fields, .record fields ∈ type.nodes ∧ field ∈ fields

namespace Registry

open Relation

/-- Some builtin data type is reached by one or more steps to a parent. -/
def BackedByBuiltin (r : Registry) (id : EntityId) : Prop :=
  ∃ above ancestor, TransGen r.IsParent id above ∧ r.entity? above = some ancestor ∧
    ancestor.kind.isBuiltin = true

/-!
# The flag of a registration

Nothing that is done after an entity has been registered changes its flag.
-/

/-- The entity at a position was registered with a flag at some time. -/
def RegisteredWith (r : Registry) (id : EntityId) (allowString : Bool) : Prop :=
  ∃ before after subject kind, Steps empty before ∧
    before.insert subject kind allowString = .ok (id, after) ∧ Steps after r

theorem RegisteredWith.step {r s : Registry} {id : EntityId} {allowString : Bool}
    (h : r.RegisteredWith id allowString) (hstep : Step r s) :
    s.RegisteredWith id allowString := by
  rcases h with ⟨before, after, subject, kind, hbefore, hinsert, hafter⟩
  exact ⟨before, after, subject, kind, hbefore, hinsert, hafter.tail hstep⟩

theorem RegisteredWith.exists_entity? {r : Registry} {id : EntityId} {allowString : Bool}
    (h : r.RegisteredWith id allowString) :
    ∃ e, r.entity? id = some e ∧ e.allowString = allowString := by
  rcases h with ⟨before, after, subject, kind, _, hinsert, hafter⟩
  rcases insert_eq_ok_iff.mp hinsert with ⟨_, rfl, rfl⟩
  have hnew : (before.append (.bare subject kind allowString)).entity? before.size =
      some (.bare subject kind allowString) := by
    rw [entity?_append, if_pos rfl]
  rcases hafter.keeps before.size _ hnew with ⟨e, he, hsame⟩
  exact ⟨e, he, hsame.allowString⟩

/-- A step leaves the registered entities their flags and registers a new one with its own. -/
theorem registeredWith_of_step {r s : Registry} (hsteps : Steps empty r)
    (h : ∀ id e, r.entity? id = some e → r.RegisteredWith id e.allowString)
    (hstep : Step r s) {id : EntityId} {f : Entity} (hf : s.entity? id = some f) :
    s.RegisteredWith id f.allowString := by
  have hold : ∀ e, r.entity? id = some e → s.RegisteredWith id f.allowString := by
    intro e he
    rcases hstep.keeps id e he with ⟨known, hknown, hsame⟩
    rw [hf] at hknown
    cases hknown
    rw [hsame.allowString]
    exact (h id e he).step hstep
  cases hentity : r.entity? id with
  | some e => exact hold e hentity
  | none =>
      have hissued : id < s.size := (s.lt_size_iff id).mpr ⟨f, hf⟩
      have hbeyond : ¬ id < r.size := by
        rw [lt_size_iff, hentity]
        simp
      cases hstep with
      | @insert subject kind allowString hfresh hkind =>
          have hlast : id = r.size := by
            rw [size_append] at hissued
            exact Nat.le_antisymm (Nat.le_of_lt_succ hissued) (Nat.le_of_not_lt hbeyond)
          rw [entity?_append, if_pos hlast] at hf
          cases hf
          exact ⟨r, _, subject, kind, hsteps, insert_eq_ok_iff.mpr ⟨hfresh, hlast, rfl⟩,
            ReflTransGen.refl⟩
      | comment _ => exact absurd (by simpa using hissued) hbeyond
      | link _ _ _ => exact absurd (by simpa using hissued) hbeyond
      | replacement _ _ => exact absurd (by simpa using hissued) hbeyond
      | members _ => exact absurd (by simpa using hissued) hbeyond
      | record => exact absurd (by simpa using hissued) hbeyond

theorem Reachable.registeredWith_iff {r : Registry} (hr : r.Reachable) {id : EntityId}
    {allowString : Bool} :
    r.RegisteredWith id allowString ↔ ∃ e, r.entity? id = some e ∧ e.allowString = allowString := by
  have hall : Steps empty r ∧
      ∀ id e, r.entity? id = some e → r.RegisteredWith id e.allowString := by
    apply hr.induction (P := fun r => Steps empty r ∧
      ∀ id e, r.entity? id = some e → r.RegisteredWith id e.allowString)
    · refine ⟨ReflTransGen.refl, ?_⟩
      intro id e he
      cases he
    · intro r s h hstep
      exact ⟨h.left.tail hstep, fun _ _ => registeredWith_of_step h.left h.right hstep⟩
  constructor
  · intro hregistered
    exact hregistered.exists_entity?
  · intro hknown
    rcases hknown with ⟨e, he, rfl⟩
    exact hall.right id e he

/-!
# Handing down
-/

section

variable {r : Registry} {id below : EntityId} {e d : Entity} (he : r.entity? id = some e)
  (hd : r.entity? below = some d) (hpath : TransGen r.IsParent below id)

include he hd hpath

theorem extendsBuiltin_of_above (h : e.kind.isBuiltin = true ∨ r.extendsBuiltin e = true) :
    r.extendsBuiltin d = true := by
  rw [extendsBuiltin_iff hd]
  rcases h with hbuiltin | hextends
  · exact ⟨id, e, hpath, he, hbuiltin⟩
  · rcases (extendsBuiltin_iff he).mp hextends with ⟨above, ancestor, hrest, hancestor, hbuiltin⟩
    exact ⟨above, ancestor, hpath.trans hrest, hancestor, hbuiltin⟩

theorem admitsString_of_above (h : r.admitsString e = true) : r.admitsString d = true := by
  rcases (admitsString_iff he).mp h with ⟨above, ancestor, hrest, hancestor, hallow⟩
  rw [admitsString_iff hd]
  exact ⟨above, ancestor, hpath.to_reflTransGen.trans hrest, hancestor, hallow⟩

end

/-!
# Tags
-/

theorem directShape_contains {r : Registry} (o : Options) {e : Entity}
    (h : r.extendsBuiltin e = false) :
    (r.directShape o e).Contains
      (.mustHave o.typeField (.literal (o.context.shorten e.subject))) := by
  refine ⟨[e.classField o], ?_, List.mem_singleton_self _⟩
  rw [directShape, h]
  simp [TypeExpr.nodes, TypeExpr.allNodes]

/--
What an entity inherits is decided by the graph of parents.  The recursions along parents
end with the same answers as the search.  A data type is extended just if some entity
strictly above is a builtin, and strings are admitted just if the entity or one above it
was registered with the flag; both are handed down to everything below.  So the type of
direct instances is the bare name of the base type if a builtin stands above, and holds the
field with the name of the class otherwise.
-/
theorem inheritance_is_reachability {r : Registry} (hr : r.Reachable) (o : Options)
    {id : EntityId} {e : Entity} (he : r.entity? id = some e) :
    (∀ depth, r.size ≤ depth →
      r.extendsBuiltinWithin depth id = some (r.extendsBuiltin e) ∧
        r.admitsStringWithin depth id = some (r.admitsString e)) ∧
    (r.extendsBuiltin e = true ↔ r.BackedByBuiltin id) ∧
    (r.admitsString e = true ↔
      ∃ above, ReflTransGen r.IsParent id above ∧ r.RegisteredWith above true) ∧
    (∀ below d, r.entity? below = some d → TransGen r.IsParent below id →
      (e.kind.isBuiltin = true ∨ r.extendsBuiltin e = true → r.extendsBuiltin d = true) ∧
        (r.admitsString e = true → r.admitsString d = true)) ∧
    (r.BackedByBuiltin id → r.directShape o e = .reference e.nameOfBase) ∧
    (¬ r.BackedByBuiltin id → (r.directShape o e).Contains
      (.mustHave o.typeField (.literal (o.context.shorten e.subject)))) := by
  have h := hr.wellFormed
  have hextends : r.extendsBuiltin e = true ↔ r.BackedByBuiltin id := extendsBuiltin_iff he
  have hchains := h.chainsWithin_size he
  refine ⟨?_, hextends, ?_, ?_, ?_, ?_⟩
  · intro depth hdepth
    have hwithin : r.ChainsWithin depth id := fun chain hchain =>
      Nat.le_trans (hchains chain hchain) hdepth
    exact ⟨h.extendsBuiltinWithin_eq he hwithin, h.admitsStringWithin_eq he hwithin⟩
  · simp only [admitsString_iff he, hr.registeredWith_iff, exists_and_left]
  · intro below d hd hpath
    exact ⟨extendsBuiltin_of_above he hd hpath, admitsString_of_above he hd hpath⟩
  · intro hbacked
    rw [directShape, if_pos (hextends.mpr hbacked)]
  · intro hfree
    apply directShape_contains
    rw [Bool.eq_false_iff]
    exact fun htrue => hfree (hextends.mp htrue)

/-- A data type below a class that admits strings, with a diamond of classes below it. -/
def labelLattice : Registry :=
  empty.run
    [.insertClass ⟨"Thing", "https://schema.org/Thing"⟩ true,
      .insertBuiltin "s/Label" "string" "",
      .insertClass ⟨"Left", "s:Left"⟩ false,
      .insertClass ⟨"Right", "s:Right"⟩ false,
      .insertClass ⟨"Bottom", "s:Bottom"⟩ false,
      .assert 1 (Statement.subclassOf ⟨"Thing", "https://schema.org/Thing"⟩).toFact,
      .assert 2 (Statement.subclassOf ⟨"Label", "s/Label"⟩).toFact,
      .assert 3 (Statement.subclassOf ⟨"Label", "s/Label"⟩).toFact,
      .assert 4 (Statement.subclassOf ⟨"Left", "s:Left"⟩).toFact,
      .assert 4 (Statement.subclassOf ⟨"Right", "s:Right"⟩).toFact]

theorem inheritance_in_labelLattice :
    labelLattice.Reachable ∧ labelLattice.size = 5 ∧
      (∃ thing, labelLattice.entity? 0 = some thing ∧
        (labelLattice.directShape .standard thing).Contains
          (.mustHave "@type" (.literal "Thing"))) ∧
      ∃ bottom, labelLattice.entity? 4 = some bottom ∧
        labelLattice.extendsBuiltinWithin 5 4 = some true ∧
        labelLattice.admitsString bottom = true ∧
        labelLattice.directShape .standard bottom = .reference "BottomBase" := by
  have hr : labelLattice.Reachable := ⟨_, rfl⟩
  have hsize : labelLattice.size = 5 := by
    cbv
  have hthing : (labelLattice.entity? 0).map
      (fun e => (Options.standard.context.shorten e.subject, e.allowString)) =
        some ("Thing", true) := by
    cbv
  have hlabel : (labelLattice.entity? 1).map (fun e => e.kind.isBuiltin) = some true := by
    cbv
  have hbottom : (labelLattice.entity? 4).map Entity.nameOfBase = some "BottomBase" := by
    cbv
  have hparents : labelLattice.parentsOf 0 = [] ∧ labelLattice.parentsOf 1 = [0] ∧
      labelLattice.parentsOf 3 = [1] ∧ labelLattice.parentsOf 4 = [2, 3] := by
    cbv
  rcases Option.map_eq_some_iff.mp hthing with ⟨thing, hthing, hthingIs⟩
  rcases Option.map_eq_some_iff.mp hlabel with ⟨label, hlabel, hbuiltin⟩
  rcases Option.map_eq_some_iff.mp hbottom with ⟨bottom, hbottom, hbase⟩
  rw [Prod.mk.injEq] at hthingIs
  have hpath : TransGen labelLattice.IsParent 4 1 := by
    have hfirst : labelLattice.IsParent 4 3 := by
      simp [IsParent, hparents]
    have hlast : labelLattice.IsParent 3 1 := by
      simp [IsParent, hparents]
    exact TransGen.head hfirst (TransGen.single hlast)
  have htop : labelLattice.IsParent 1 0 := by
    simp [IsParent, hparents]
  have hfree : ¬ labelLattice.BackedByBuiltin 0 := by
    intro hbacked
    rcases hbacked with ⟨above, _, habove, _⟩
    rcases TransGen.head'_iff.mp habove with ⟨parent, hparent, _⟩
    simp [IsParent, hparents] at hparent
  have hbacked : labelLattice.BackedByBuiltin 4 := ⟨1, label, hpath, hlabel, hbuiltin⟩
  rcases inheritance_is_reachability hr .standard hthing with ⟨_, _, hadmits, hdown, _, htagged⟩
  rcases inheritance_is_reachability hr .standard hbottom with
    ⟨hends, hextends, _, _, huntagged, _⟩
  have hcontains := htagged hfree
  rw [hthingIs.left] at hcontains
  refine ⟨hr, hsize, ⟨thing, hthing, hcontains⟩, bottom, hbottom, ?_, ?_, ?_⟩
  · rw [(hends 5 (Nat.le_of_eq hsize)).left, hextends.mpr hbacked]
  · apply (hdown 4 bottom hbottom (hpath.tail htop)).right
    apply hadmits.mpr
    exact ⟨0, ReflTransGen.refl, hr.registeredWith_iff.mpr ⟨thing, hthing, hthingIs.right⟩⟩
  · rw [huntagged hbacked, hbase]

end Registry
end VocabTypes
