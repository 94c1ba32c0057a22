import VocabTypes.Proofs.AddedClass
import VocabTypes.Proofs.Arms
import VocabTypes.Proofs.DeclaredNames
import VocabTypes.Proofs.SameListing

/-!
# Local effect

## What a new class changes in the declarations of the others

The entities that a new class is below learn of a child, and nothing else about the
registered entities changes.  What is declared of an entity reads its children in one
place only: its public type refers to them in their order.  So a new class is seen in
the public types of its parents, at its place among the other children.
-/

namespace VocabTypes

/-!
# Sorted identifiers with a new one
-/

namespace Identifier

theorem mergeSort_eq_of_pairwise {ids sorted : List Identifier} (hperm : sorted.Perm ids)
    (hsorted : sorted.Pairwise fun a b => (compare a b).isLE = true) :
    (ids.mergeSort fun a b => (compare a b).isLE) = sorted := by
  apply List.Perm.eq_of_pairwise _ (pairwise_mergeSort_cmp ids) hsorted
    ((List.mergeSort_perm ids _).trans hperm.symm)
  intro a b _ _ hab hba
  exact Std.LawfulEqOrd.eq_of_compare (Std.OrientedCmp.isLE_antisymm hab hba)

theorem lt_of_not_mem {ids : List Identifier} {new id : Identifier} (hnew : new ∉ ids)
    (hid : id ∈ ids) (hlarge : compare id new ≠ .lt) : compare new id = .lt := by
  apply Std.OrientedCmp.lt_of_gt
  cases hcompare : compare id new with
  | lt => exact absurd hcompare hlarge
  | eq =>
      rw [Std.LawfulEqOrd.eq_of_compare hcompare] at hid
      exact absurd hid hnew
  | gt => rfl

/-- Copies of an identifier keep a list sorted between smaller and greater ones. -/
theorem pairwise_append_replicate {before after : List Identifier} {new : Identifier}
    (hbefore : before.Pairwise fun a b => (compare a b).isLE = true)
    (hafter : after.Pairwise fun a b => (compare a b).isLE = true)
    (hsmaller : ∀ id ∈ before, compare id new = .lt)
    (hgreater : ∀ id ∈ after, compare new id = .lt) (copies : Nat) :
    (before ++ (List.replicate copies new ++ after)).Pairwise
      fun a b => (compare a b).isLE = true := by
  rw [List.pairwise_append, List.pairwise_append]
  refine ⟨hbefore, ⟨?_, hafter, ?_⟩, ?_⟩
  · have hself : (compare new new).isLE = true := Std.ReflOrd.isLE_rfl
    exact List.pairwise_replicate.mpr (Or.inr hself)
  · intro a ha b hb
    rw [List.eq_of_mem_replicate ha, hgreater b hb]
    rfl
  · intro a ha b hb
    rcases List.mem_append.mp hb with hcopy | hlater
    · rw [List.eq_of_mem_replicate hcopy, hsmaller a ha]
      rfl
    · rw [Std.TransCmp.lt_trans (hsmaller a ha) (hgreater b hlater)]
      rfl

/-- Copies of a new identifier are sorted between the smaller and the greater ones. -/
theorem mergeSort_append_replicate {ids : List Identifier} {new : Identifier}
    (hnew : new ∉ ids) :
    ∃ before after : List Identifier,
      (∀ id ∈ before, compare id new = .lt) ∧ (∀ id ∈ after, compare new id = .lt) ∧
        ∀ copies, ((ids ++ List.replicate copies new).mergeSort fun a b => (compare a b).isLE) =
          before ++ (List.replicate copies new ++ after) := by
  let sorted := ids.mergeSort fun a b => (compare a b).isLE
  let smaller := fun id : Identifier => compare id new == .lt
  have hsorted : sorted.Pairwise fun a b => (compare a b).isLE = true :=
    pairwise_mergeSort_cmp ids
  have hperm : sorted.Perm ids := List.mergeSort_perm ids _
  have hbefore : ∀ id ∈ sorted.filter smaller, compare id new = .lt := by
    intro id hid
    exact eq_of_beq (List.mem_filter.mp hid).2
  have hafter : ∀ id ∈ sorted.filter fun id => !smaller id, compare new id = .lt := by
    intro id hid
    rcases List.mem_filter.mp hid with ⟨hmem, hlarge⟩
    apply lt_of_not_mem hnew (hperm.mem_iff.mp hmem)
    intro hlt
    simp [smaller, hlt] at hlarge
  refine ⟨_, _, hbefore, hafter, ?_⟩
  intro copies
  have hparts := ((List.filter_append_perm smaller sorted).trans hperm).append_right
    (List.replicate copies new)
  rw [List.append_assoc] at hparts
  apply mergeSort_eq_of_pairwise
  · exact (List.perm_append_comm.append_left _).trans hparts
  · exact pairwise_append_replicate (hsorted.sublist List.filter_sublist)
      (hsorted.sublist List.filter_sublist) hbefore hafter copies

end Identifier

namespace SourceClass

/-- How often a class names the term known by an IRI as a superclass. -/
def timesBelow (c : SourceClass) (href : String) : Nat :=
  (c.superclasses.map Identifier.href).count href

end SourceClass

namespace Registry

open Relation

theorem Indexed.count_positions {r : Registry} (h : r.Indexed) {id : EntityId} {e : Entity}
    (he : r.entity? id = some e) (terms : List Identifier) :
    (r.positions terms).count id = (terms.map Identifier.href).count e.href := by
  have hfound : ∀ href, r.find? href = some id ↔ href = e.href := by
    intro href
    constructor
    · intro hid
      rcases (h href id).mp hid with ⟨known, hknown, hhref⟩
      rw [he] at hknown
      cases hknown
      exact hhref.symm
    · rintro rfl
      exact h.find?_href he
  rw [positions, List.count_eq_countP, List.count_eq_countP, List.countP_filterMap,
    List.countP_map]
  apply List.countP_congr
  intro term _
  have hterm := hfound term.href
  cases hposition : r.find? term.href with
  | none => simpa [hposition] using hterm
  | some other => simpa [hposition] using hterm

/-!
# Registries that grow below

What is said of a registered entity stays, apart from its children.
-/

/-- What is registered in `b` is registered in `s` too, with all but the children as it was. -/
def GrowsBelow (b s : Registry) : Prop :=
  ∀ id e, b.entity? id = some e → ∃ children, s.entity? id = some { e with children }

theorem AddedClass.growsBelow {b s : Registry} {c : SourceClass} (h : AddedClass b c s) :
    GrowsBelow b s :=
  fun id e he => ⟨_, h.earlier id e he⟩

namespace GrowsBelow

variable {b s : Registry} (h : GrowsBelow b s)

include h

/-- What is read of linked entities, apart from their children, is what it was. -/
theorem map_resolve {β : Type} {ids : List EntityId} (hids : ∀ id ∈ ids, id < b.size)
    {f : Entity → β} (hf : ∀ e children, f { e with children } = f e) :
    (s.resolve ids).map f = (b.resolve ids).map f := by
  unfold resolve
  rw [List.map_filterMap, List.map_filterMap]
  apply List.filterMap_congr
  intro id hid
  rcases (b.lt_size_iff id).mp (hids id hid) with ⟨e, he⟩
  rcases h id e he with ⟨children, hafter⟩
  rw [he, hafter, Option.map_some, Option.map_some, hf]

theorem holdsAt {test : Entity → Bool} (htest : ∀ e children, test { e with children } = test e)
    {id : EntityId} (hid : id < b.size) : s.holdsAt test id = b.holdsAt test id := by
  rcases (b.lt_size_iff id).mp hid with ⟨e, he⟩
  rcases h id e he with ⟨children, hafter⟩
  simp [Registry.holdsAt, he, hafter, htest]

/-!
# Ancestors

The parents of an entity were registered before it was linked to them, so no path
upwards leads to a new entity.
-/

theorem isParent_iff {child parent : EntityId} (hchild : child < b.size) :
    s.IsParent child parent ↔ b.IsParent child parent := by
  rcases (b.lt_size_iff child).mp hchild with ⟨e, he⟩
  rcases h child e he with ⟨children, hafter⟩
  rw [IsParent, IsParent, parentsOf_of_entity? he, parentsOf_of_entity? hafter]

theorem reaches_iff (hb : b.WellFormed) {id top : EntityId} (hid : id < b.size) :
    ReflTransGen s.IsParent id top ↔ ReflTransGen b.IsParent id top ∧ top < b.size := by
  constructor
  · intro hpath
    induction hpath with
    | refl => exact ⟨ReflTransGen.refl, hid⟩
    | tail _ hstep ih =>
        rcases ih with ⟨hpath, hbelow⟩
        have hparent := (h.isParent_iff hbelow).mp hstep
        exact ⟨hpath.tail hparent, hb.parent_lt hparent⟩
  · intro hreached
    rcases hreached with ⟨hpath, -⟩
    induction hpath with
    | refl => exact ReflTransGen.refl
    | tail _ hstep ih => exact ih.tail ((h.isParent_iff hstep.child_lt).mpr hstep)

theorem reaches_above_iff (hb : b.WellFormed) {id top : EntityId} (hid : id < b.size) :
    TransGen s.IsParent id top ↔ TransGen b.IsParent id top ∧ top < b.size := by
  rw [TransGen.tail'_iff, TransGen.tail'_iff]
  constructor
  · intro hpath
    rcases hpath with ⟨between, hpath, hstep⟩
    rcases (h.reaches_iff hb hid).mp hpath with ⟨hpath, hbelow⟩
    have hparent := (h.isParent_iff hbelow).mp hstep
    exact ⟨⟨between, hpath, hparent⟩, hb.parent_lt hparent⟩
  · intro hpath
    rcases hpath with ⟨⟨between, hpath, hstep⟩, _⟩
    have hbelow := hstep.child_lt
    exact ⟨between, (h.reaches_iff hb hid).mpr ⟨hpath, hbelow⟩,
      (h.isParent_iff hbelow).mpr hstep⟩

/-- What holds of an entity, apart from its children, holds of the same entities afterwards. -/
theorem exists_reached_iff {test : Entity → Bool}
    (htest : ∀ e children, test { e with children } = test e) {before after : EntityId → Prop}
    (hreached : ∀ top, after top ↔ before top ∧ top < b.size) :
    (∃ above ancestor, after above ∧ s.entity? above = some ancestor ∧ test ancestor = true) ↔
      ∃ above ancestor, before above ∧ b.entity? above = some ancestor ∧
        test ancestor = true := by
  constructor
  · intro hafter
    rcases hafter with ⟨above, ancestor, hpath, hentity, hholds⟩
    rcases (hreached above).mp hpath with ⟨hold, hbelow⟩
    have hthere : b.holdsAt test above = true := by
      rw [← h.holdsAt htest hbelow]
      exact holdsAt_iff.mpr ⟨ancestor, hentity, hholds⟩
    rcases holdsAt_iff.mp hthere with ⟨old, hentity, hholds⟩
    exact ⟨above, old, hold, hentity, hholds⟩
  · intro hbefore
    rcases hbefore with ⟨above, ancestor, hpath, hentity, hholds⟩
    have hbelow : above < b.size := (b.lt_size_iff above).mpr ⟨ancestor, hentity⟩
    rcases h above ancestor hentity with ⟨children, hafter⟩
    refine ⟨above, _, (hreached above).mpr ⟨hpath, hbelow⟩, hafter, ?_⟩
    rw [htest]
    exact hholds

variable (hb : b.WellFormed) {id : EntityId} {e : Entity} (he : b.entity? id = some e)

include hb he

theorem extendsBuiltin_eq (children : List EntityId) :
    s.extendsBuiltin { e with children } = b.extendsBuiltin e := by
  have hid : id < b.size := (b.lt_size_iff id).mpr ⟨e, he⟩
  rcases h id e he with ⟨others, hafter⟩
  rw [Bool.eq_iff_iff, extendsBuiltin_iff he,
    ← h.exists_reached_iff (fun _ _ => rfl) fun _ => h.reaches_above_iff hb hid]
  have hregistered := extendsBuiltin_iff hafter
  exact hregistered

theorem admitsString_eq (children : List EntityId) :
    s.admitsString { e with children } = b.admitsString e := by
  have hid : id < b.size := (b.lt_size_iff id).mpr ⟨e, he⟩
  rcases h id e he with ⟨others, hafter⟩
  rw [Bool.eq_iff_iff, admitsString_iff he,
    ← h.exists_reached_iff (fun _ _ => rfl) fun _ => h.reaches_iff hb hid]
  have hregistered := admitsString_iff hafter
  exact hregistered

/-!
# What is declared
-/

theorem baseShape_eq (o : Options) (children : List EntityId) :
    s.baseShape o { e with children } = b.baseShape o e := by
  have hnames := h.map_resolve (hb.issued.parents_lt he) (f := Entity.nameOfBase) fun _ _ => rfl
  rw [baseShape, baseShape, parentBase?_eq, parentBase?_eq, hnames]
  rfl

theorem directShape_eq (o : Options) (children : List EntityId) :
    s.directShape o { e with children } = b.directShape o e := by
  rw [directShape, directShape, h.extendsBuiltin_eq hb he]
  rfl

theorem documentation_eq (children : List EntityId) :
    s.documentation { e with children } = b.documentation e := by
  have hnames := h.map_resolve (hb.issued.replacements_lt he) (f := Entity.name) fun _ _ => rfl
  have hnotice : s.deprecationNotice { e with children } = b.deprecationNotice e :=
    congrArg (fun names => "@deprecated Use " ++ " or ".intercalate names ++ " instead.") hnames
  rw [documentation, documentation, hnotice]
  rfl

/-- What is declared of a builtin data type does not depend on its children. -/
theorem declarations_of_builtin (hkind : e.kind ≠ .rdfsClass) (o : Options)
    (children : List EntityId) : s.declarations o { e with children } = b.declarations o e := by
  have hnames := h.map_resolve (hb.issued.members_lt he) (f := Entity.name) fun _ _ => rfl
  rw [declarations_eq, declarations_eq]
  cases hcase : e.kind with
  | rdfsClass => exact absurd hcase hkind
  | builtin typeName doc => rfl
  | booleanEnum trueUrl falseUrl doc => rfl
  | dataTypeUnion members doc =>
      rw [hcase] at hnames
      dsimp only [Kind.unlinked]
      rw [hnames]
      rfl

/-- What is declared of a class depends on its children in the public type only. -/
theorem declarations_of_class (hkind : e.kind = .rdfsClass) (o : Options)
    (children : List EntityId) :
    s.declarations o { e with children } =
      e.enumeration ++ [.typeAlias e.nameOfBase none (b.baseShape o e),
        .typeAlias e.name (b.documentation e) (s.publicShape o { e with children })] := by
  rw [Registry.declarations_of_class (e := { e with children }) hkind, declarationsOfClass,
    h.baseShape_eq hb he, h.documentation_eq hb he]
  rfl

theorem publicShape_eq (o : Options) {children : List EntityId}
    (hother : s.otherArms { e with children } = b.otherArms e) :
    s.publicShape o { e with children } = b.publicShape o e := by
  have hinstances : s.instanceShape o { e with children } = b.instanceShape o e := by
    rw [instanceShape, instanceShape, hother, h.directShape_eq hb he]
  rw [publicShape, publicShape, hinstances]
  rfl

end GrowsBelow

/-!
# Children in a public type
-/

/-- The arms of a public type in which children with some identifiers are referred to. -/
def armsOver (r : Registry) (o : Options) (e : Entity) (children : List Identifier) :
    List TypeExpr :=
  e.enumerationArms ++ r.directShape o e ::
    ((children.map fun child => .reference child.name) ++
      if r.admitsString e then [.string] else [])

def childIdentifiers (r : Registry) (e : Entity) : List Identifier :=
  (r.childrenInOrder e).map Entity.subject

theorem childIdentifiers_eq (r : Registry) (e : Entity) :
    r.childIdentifiers e =
      ((r.resolve e.children).map Entity.subject).mergeSort fun a b => (compare a b).isLE :=
  List.map_mergeSort fun _ _ _ _ => rfl

theorem otherArms_eq (r : Registry) (e : Entity) :
    r.otherArms e =
      ((r.childIdentifiers e).map fun child => .reference child.name) ++
        if r.admitsString e then [.string] else [] := by
  rw [childIdentifiers, List.map_map]
  rfl

theorem arms_publicShape_eq (r : Registry) (o : Options) (e : Entity) :
    (r.publicShape o e).arms = r.armsOver o e (r.childIdentifiers e) := by
  rw [arms_publicShape, otherArms_eq, armsOver]

theorem GrowsBelow.armsOver_eq {b s : Registry} (h : GrowsBelow b s) (hb : b.WellFormed)
    {id : EntityId} {e : Entity} (he : b.entity? id = some e) (o : Options)
    (children : List EntityId) (identifiers : List Identifier) :
    s.armsOver o { e with children } identifiers = b.armsOver o e identifiers := by
  rw [armsOver, armsOver, h.directShape_eq hb he, h.admitsString_eq hb he]
  rfl

/-- A class that is new has none of the registered identifiers. -/
theorem Indexed.not_mem_of_free {r : Registry} (h : r.Indexed) {new : Identifier}
    (hfree : r.find? new.href = none) (ids : List EntityId) :
    new ∉ (r.resolve ids).map Entity.subject := by
  intro hmem
  rcases List.mem_map.mp hmem with ⟨known, hknown, rfl⟩
  rcases entity?_of_mem_resolve hknown with ⟨id, _, hentity⟩
  have hfound := h.find?_href hentity
  rw [Entity.href, hfree] at hfound
  cases hfound

/-- The children of an entity after a class has been added, in the order of registration. -/
theorem AddedClass.map_subject_resolve {b s : Registry} {c : SourceClass}
    (h : AddedClass b c s) {ids : List EntityId} (hids : ∀ id ∈ ids, id < b.size)
    (copies : Nat) :
    (s.resolve (ids ++ List.replicate copies b.size)).map Entity.subject =
      (b.resolve ids).map Entity.subject ++ List.replicate copies c.subject := by
  have hold := h.growsBelow.map_resolve hids (f := Entity.subject) fun _ _ => rfl
  have hnew : (s.resolve (List.replicate copies b.size)).map Entity.subject =
      List.replicate copies c.subject := by
    rw [resolve, List.filterMap_replicate_of_some h.last, List.map_replicate]
    rfl
  rw [← hold, ← hnew, ← List.map_append, resolve, List.filterMap_append]
  rfl

/-- References to a new class stand between those to the smaller and the greater children. -/
theorem AddedClass.childIdentifiers {b s : Registry} {c : SourceClass} (h : AddedClass b c s)
    (hb : b.WellFormed) (hfree : b.find? c.subject.href = none) {id : EntityId} {e : Entity}
    (he : b.entity? id = some e) :
    ∃ before after : List Identifier,
      (∀ child ∈ before, compare child c.subject = .lt) ∧
        (∀ child ∈ after, compare c.subject child = .lt) ∧
        b.childIdentifiers e = before ++ after ∧
        ∀ copies, s.childIdentifiers
            { e with children := e.children ++ List.replicate copies b.size } =
          before ++ (List.replicate copies c.subject ++ after) := by
  have hnew := hb.indexed.not_mem_of_free hfree e.children
  rcases Identifier.mergeSort_append_replicate hnew with ⟨before, after, hsmaller, hgreater, hall⟩
  refine ⟨before, after, hsmaller, hgreater, ?_, ?_⟩
  · have hnone := hall 0
    rw [List.replicate_zero, List.append_nil, List.nil_append] at hnone
    rw [childIdentifiers_eq, hnone]
  · intro copies
    rw [childIdentifiers_eq, h.map_subject_resolve (hb.issued.children_lt he), hall]

/-!
# The effect of a class
-/

theorem load_singleton (b : Registry) (c : SourceClass) : b.load [c] = b.loadClass c := by
  rw [load]
  cases b.loadClass c with
  | mk after outcome =>
      cases outcome with
      | error failure => rfl
      | ok done => rfl

/--
A class that is loaded changes the public types of its parents and nothing else.

The declarations of any other entity stay as they are.  Of a class that the new one
names as a superclass, the enumeration, the base type and the name and documentation of
the public type stay; and the arms of the public type are what they were, with as many
references to the new class as it names the other one, at its place among the children.
-/
theorem load_has_local_effect {b : Registry} (hb : b.Reachable) (o : Options)
    {c : SourceClass} (hload : (b.load [c]).2 = .ok ()) {id : EntityId} {e : Entity}
    (he : b.entity? id = some e) :
    ∃ f, (b.load [c]).1.entity? id = some f ∧
      ((b.load [c]).1.parentsOf b.size).count id = c.timesBelow e.href ∧
      (e.kind ≠ .rdfsClass ∨ c.timesBelow e.href = 0 →
        (b.load [c]).1.declarations o f = b.declarations o e) ∧
      (e.kind = .rdfsClass → ∃ before after : List Identifier,
        b.declarations o e =
          e.enumeration ++ [.typeAlias e.nameOfBase none (b.baseShape o e),
            .typeAlias e.name (b.documentation e) (b.publicShape o e)] ∧
        (b.load [c]).1.declarations o f =
          e.enumeration ++ [.typeAlias e.nameOfBase none (b.baseShape o e),
            .typeAlias e.name (b.documentation e) ((b.load [c]).1.publicShape o f)] ∧
        (∀ child ∈ before, compare child c.subject = .lt) ∧
        (∀ child ∈ after, compare c.subject child = .lt) ∧
        (b.publicShape o e).arms = b.armsOver o e (before ++ after) ∧
        ((b.load [c]).1.publicShape o f).arms = b.armsOver o e
          (before ++ (List.replicate (c.timesBelow e.href) c.subject ++ after))) := by
  have h := hb.wellFormed
  rw [load_singleton] at hload ⊢
  have hfree := (h.loadClass_ok_iff.mp hload).1
  have hadded := h.addedClass (Prod.ext rfl hload : b.loadClass c = ((b.loadClass c).1, .ok ()))
  have hgrows := hadded.growsBelow
  generalize (b.loadClass c).1 = s at hadded hgrows ⊢
  have hcount : (b.positions c.superclasses).count id = c.timesBelow e.href :=
    h.indexed.count_positions he c.superclasses
  have hafter := hadded.earlier id e he
  rw [hcount] at hafter
  rcases hadded.childIdentifiers h hfree he with ⟨before, after, hsmaller, hgreater, hold, hnew⟩
  refine ⟨_, hafter, ?_, ?_, ?_⟩
  · rw [parentsOf_of_entity? hadded.last]
    exact hcount
  · intro hother
    by_cases hkind : e.kind = .rdfsClass
    · have hnone : c.timesBelow e.href = 0 := hother.resolve_left (not_not_intro hkind)
      have harms : s.otherArms { e with
            children := e.children ++ List.replicate (c.timesBelow e.href) b.size } =
          b.otherArms e := by
        rw [otherArms_eq, otherArms_eq, hnew, hold, hnone, hgrows.admitsString_eq h he]
        rfl
      rw [hgrows.declarations_of_class h he hkind, hgrows.publicShape_eq h he o harms,
        declarations_of_class hkind]
      rfl
    · exact hgrows.declarations_of_builtin h he hkind o _
  · intro hkind
    refine ⟨before, after, declarations_of_class hkind,
      hgrows.declarations_of_class h he hkind o _, hsmaller, hgreater, ?_, ?_⟩
    · rw [arms_publicShape_eq, hold]
    · rw [arms_publicShape_eq, hnew, hgrows.armsOver_eq h he]

/-- A class with a value, which admits strings and has two classes below it. -/
def songShelf : Registry :=
  empty.run
    [.insertClass ⟨"Work", "s:Work"⟩ true,
      .insertClass ⟨"Song", "s:Song"⟩ false,
      .insertClass ⟨"Book", "s:Book"⟩ false,
      .addEnumValue 0 ⟨⟨"Lost", "s:Lost"⟩, none⟩,
      .assert 1 (Statement.subclassOf ⟨"Work", "s:Work"⟩).toFact,
      .assert 2 (Statement.subclassOf ⟨"Work", "s:Work"⟩).toFact]

/-- A class that names one superclass twice, and has an old one in its place. -/
def epicClass : SourceClass :=
  { subject := ⟨"Epic", "s:Epic"⟩
    allowString := true
    facts := [(Statement.subclassOf ⟨"Work", "s:Work"⟩).toFact,
      (Statement.supersededBy ⟨"Song", "s:Song"⟩).toFact,
      (Statement.subclassOf ⟨"Work", "s:Work"⟩).toFact]
    properties := []
    enumValues := [] }

theorem load_epic_beside_songs :
    songShelf.Reachable ∧ (songShelf.load [epicClass]).2 = .ok () ∧
      (∃ song f, songShelf.entity? 1 = some song ∧ song.kind = .rdfsClass ∧
        (songShelf.load [epicClass]).1.entity? 1 = some f ∧
        (songShelf.load [epicClass]).1.declarations .standard f =
          songShelf.declarations .standard song) ∧
      ∃ work f before after, songShelf.entity? 0 = some work ∧
        (songShelf.load [epicClass]).1.entity? 0 = some f ∧
        ((songShelf.load [epicClass]).1.parentsOf 3).count 0 = 2 ∧
        (∀ child ∈ before, compare child epicClass.subject = .lt) ∧
        (∀ child ∈ after, compare epicClass.subject child = .lt) ∧
        (songShelf.publicShape .standard work).arms =
          songShelf.armsOver .standard work (before ++ after) ∧
        ((songShelf.load [epicClass]).1.publicShape .standard f).arms =
          songShelf.armsOver .standard work
            (before ++ (List.replicate 2 epicClass.subject ++ after)) := by
  have hr : songShelf.Reachable := ⟨_, rfl⟩
  have hok : (songShelf.load [epicClass]).2 = .ok () := by
    cbv
  have hsize : songShelf.size = 3 := by
    cbv
  have hsong : (songShelf.entity? 1).map (fun e => (e.kind, e.href)) =
      some (.rdfsClass, "s:Song") := by
    cbv
  have hwork : (songShelf.entity? 0).map (fun e => (e.kind, e.href)) =
      some (.rdfsClass, "s:Work") := by
    cbv
  rcases Option.map_eq_some_iff.mp hsong with ⟨song, hsong, hsongIs⟩
  rcases Option.map_eq_some_iff.mp hwork with ⟨work, hwork, hworkIs⟩
  simp only [Prod.mk.injEq] at hsongIs hworkIs
  have hnever : epicClass.timesBelow song.href = 0 := by
    rw [hsongIs.right]
    decide
  have htwice : epicClass.timesBelow work.href = 2 := by
    rw [hworkIs.right]
    decide
  rcases load_has_local_effect hr .standard hok hsong with ⟨songAfter, hsongAfter, _, hsame, _⟩
  rcases load_has_local_effect hr .standard hok hwork with
    ⟨workAfter, hworkAfter, hcount, _, hparent⟩
  rcases hparent hworkIs.left with ⟨before, after, _, _, hsmaller, hgreater, hold, hnew⟩
  rw [htwice] at hcount hnew
  rw [hsize] at hcount
  exact ⟨hr, hok, ⟨song, songAfter, hsong, hsongIs.left, hsongAfter, hsame (Or.inr hnever)⟩,
    work, workAfter, before, after, hwork, hworkAfter, hcount, hsmaller, hgreater, hold, hnew⟩

end Registry
end VocabTypes
