import VocabTypes.Proofs.Acyclic
import VocabTypes.Proofs.Arms
import VocabTypes.Proofs.DeclaredNames
import VocabTypes.Proofs.Rounds

/-!
# Public aliases

## What the public alias of a class covers

The public type of a class refers to its children by name.  Following the names round
after round takes in the classes below, one level at a time.  As no class is below
itself, this ends after as many rounds as there are levels, and what is left are the
arms that the classes below have of their own.
-/

namespace VocabTypes
namespace Registry

open Relation

/-!
# Following names
-/

/-- Whether a name is that of a class. -/
def namesClass (r : Registry) (name : String) : Bool :=
  r.entities.any fun e => e.kind == .rdfsClass && e.name == name

/-- The arms that stand for an arm: those of the alias, if the arm is the name of a class. -/
def unfoldArm (r : Registry) (listing : Listing) : TypeExpr → List TypeExpr
  | .reference name =>
      if r.namesClass name then
        ((listing.typeNamed? name).map TypeExpr.arms).getD [.reference name]
      else [.reference name]
  | arm => [arm]

/-- No arm is the name of a class any more. -/
def Settled (r : Registry) (arms : List TypeExpr) : Prop :=
  ∀ name, .reference name ∈ arms → r.namesClass name = false

/-- The type declared under a name, taken apart and followed for some rounds until it settles. -/
def ExpandsTo (r : Registry) (listing : Listing) (name : String) (arms : List TypeExpr) : Prop :=
  ∃ type rounds, listing.typeNamed? name = some type ∧
    (Rounds.round (r.unfoldArm listing))^[rounds] type.arms = arms ∧ r.Settled arms

/-!
# Classes below a class
-/

def IsClass (r : Registry) (id : EntityId) : Prop :=
  ∃ e, r.entity? id = some e ∧ e.kind = .rdfsClass

theorem IsClass.kind_eq {r : Registry} {id : EntityId} {e : Entity} (h : r.IsClass id)
    (he : r.entity? id = some e) : e.kind = .rdfsClass := by
  rcases h with ⟨known, hknown, hclass⟩
  rw [he] at hknown
  cases hknown
  exact hclass

/-- One step from a class to a parent that is a class. -/
def ClassStep (r : Registry) (child parent : EntityId) : Prop :=
  r.IsParent child parent ∧ r.IsClass child ∧ r.IsClass parent

theorem IsClass.below {r : Registry} {d id : EntityId} (hid : r.IsClass id)
    (hpath : ReflTransGen r.ClassStep d id) : r.IsClass d := by
  rcases ReflTransGen.cases_head hpath with rfl | ⟨_, hfirst, _⟩
  · exact hid
  · exact hfirst.right.left

theorem IsClass.above {r : Registry} {id above : EntityId} (hid : r.IsClass id)
    (hpath : ReflTransGen r.ClassStep id above) : r.IsClass above := by
  rcases ReflTransGen.cases_tail hpath with rfl | ⟨_, _, hlast⟩
  · exact hid
  · exact hlast.right.right

/-- A path along classes has fewer steps than there are entities. -/
theorem WellFormed.classSteps_lt {r : Registry} (h : r.WellFormed) {steps : Nat}
    {d above : EntityId} (hd : r.IsClass d)
    (hsteps : Rounds.LeadsBy r.ClassStep steps d above) : steps < r.size := by
  rcases hsteps.exists_chain with ⟨chain, hchain, hlength⟩
  rcases hd with ⟨e, he, _⟩
  have hparents : (d :: chain).IsChain r.IsParent := hchain.imp fun _ _ hstep => hstep.left
  have hbound := h.chain_length_le ((r.lt_size_iff d).mpr ⟨e, he⟩) hparents
  rw [List.length_cons, hlength] at hbound
  exact hbound

/-!
# Arms of one class
-/

/-- The arms that the alias of a class brings besides the names of classes. -/
inductive OwnArm (r : Registry) (o : Options) (id : EntityId) (e : Entity) : TypeExpr → Prop where
  | direct : OwnArm r o id e (r.directShape o e)
  | enumeration (values : e.enumValues ≠ []) : OwnArm r o id e (.reference e.nameOfEnum)
  | builtin {child : EntityId} {below : Entity} (parent : r.IsParent child id)
      (issued : r.entity? child = some below) (kind : below.kind.isBuiltin = true) :
      OwnArm r o id e (.reference below.name)
  | string (admitted : r.admitsString e = true) : OwnArm r o id e .string

/-- An arm that the class at a position brings besides the names of classes. -/
def BringsArm (r : Registry) (o : Options) (id : EntityId) (arm : TypeExpr) : Prop :=
  ∃ e, r.entity? id = some e ∧ e.kind = .rdfsClass ∧ r.OwnArm o id e arm

/-- An arm that is the name of the class at a position. -/
def IsClassName (r : Registry) (id : EntityId) (arm : TypeExpr) : Prop :=
  ∃ e, r.entity? id = some e ∧ e.kind = .rdfsClass ∧ arm = .reference e.name

/-- The arms that a class and the classes below it bring. -/
def Covers (r : Registry) (o : Options) (id : EntityId) (arm : TypeExpr) : Prop :=
  ∃ d e, ReflTransGen r.ClassStep d id ∧ r.entity? d = some e ∧ r.OwnArm o d e arm

theorem WellFormed.mem_arms_publicShape_iff {r : Registry} (h : r.WellFormed) {o : Options}
    {id : EntityId} {e : Entity} (he : r.entity? id = some e) {arm : TypeExpr} :
    arm ∈ (r.publicShape o e).arms ↔
      r.OwnArm o id e arm ∨
        ∃ child below, r.IsParent child id ∧ r.entity? child = some below ∧
          below.kind = .rdfsClass ∧ arm = .reference below.name := by
  rw [arms_publicShape, List.mem_append, List.mem_cons, Entity.mem_enumerationArms_iff,
    h.mem_otherArms_iff he]
  constructor
  · intro hmem
    rcases hmem with ⟨hvalues, harm⟩ | harm | ⟨child, below, hparent, hbelow, harm⟩ | hstring
    · rw [harm]
      exact Or.inl (OwnArm.enumeration hvalues)
    · rw [harm]
      exact Or.inl OwnArm.direct
    · cases hkind : below.kind.isBuiltin with
      | true =>
          rw [harm]
          exact Or.inl (OwnArm.builtin hparent hbelow hkind)
      | false =>
          exact Or.inr ⟨child, below, hparent, hbelow, Kind.isBuiltin_eq_false_iff.mp hkind, harm⟩
    · rw [hstring.right]
      exact Or.inl (OwnArm.string hstring.left)
  · intro hmem
    rcases hmem with hown | ⟨child, below, hparent, hbelow, _, harm⟩
    · cases hown with
      | direct => exact Or.inr (Or.inl rfl)
      | enumeration hvalues => exact Or.inl ⟨hvalues, rfl⟩
      | builtin hparent hbelow _ =>
          exact Or.inr (Or.inr (Or.inl ⟨_, _, hparent, hbelow, rfl⟩))
      | string hadmitted => exact Or.inr (Or.inr (Or.inr ⟨hadmitted, rfl⟩))
    · exact Or.inr (Or.inr (Or.inl ⟨child, below, hparent, hbelow, harm⟩))

/-!
# Names of classes among the arms

The other names that occur as arms are declared for an entity that is no class, or
for a class beside its own name, or are not declared at all.
-/

theorem namesClass_iff {r : Registry} {name : String} :
    r.namesClass name = true ↔ ∃ e ∈ r.entities, e.kind = .rdfsClass ∧ e.name = name := by
  simp [namesClass]

section

variable {r : Registry} {o : Options} (hnames : r.NamesDistinct o)

include hnames

theorem NamesDistinct.not_namesClass {e : Entity} (he : e ∈ r.entities) {name : String}
    (hname : name ∈ e.declaredNames) (hother : e.kind = .rdfsClass → e.name ≠ name) :
    r.namesClass name = false := by
  rw [Bool.eq_false_iff]
  intro htrue
  rcases namesClass_iff.mp htrue with ⟨f, hf, hclass, hsame⟩
  have hdeclared := f.name_mem_declaredNames
  rw [hsame] at hdeclared
  have hentity := hnames.entity_eq hf he hdeclared hname
  rw [hentity] at hclass hsame
  exact hother hclass hsame

theorem NamesDistinct.unfoldArm_of_class {e : Entity} (he : e ∈ r.entities)
    (hclass : e.kind = .rdfsClass) :
    r.unfoldArm (r.listing o) (.reference e.name) = (r.publicShape o e).arms := by
  have hnamed : r.namesClass e.name = true := namesClass_iff.mpr ⟨e, he, hclass, rfl⟩
  rw [unfoldArm, if_pos hnamed, hnames.typeNamed? he hclass]
  rfl

end

theorem unfoldArm_of_not_namesClass {r : Registry} {listing : Listing} {name : String}
    (hname : r.namesClass name = false) :
    r.unfoldArm listing (.reference name) = [.reference name] := by
  rw [unfoldArm, hname]
  rfl

/-- An arm that a class brings by itself is not the name of a class. -/
theorem NamesDistinct.not_namesClass_of_own {r : Registry} {o : Options}
    (hnames : r.NamesDistinct o) (hstring : ∀ e ∈ r.entities, e.name ≠ "string")
    {id : EntityId} {e : Entity} (he : r.entity? id = some e) (hclass : e.kind = .rdfsClass)
    {name : String} (hown : r.OwnArm o id e (.reference name)) : r.namesClass name = false := by
  have hmem : e ∈ r.entities := mem_entities_iff.mpr ⟨id, he⟩
  generalize harm : TypeExpr.reference name = arm at hown
  cases hown with
  | direct =>
      unfold directShape at harm
      cases hbuiltin : r.extendsBuiltin e with
      | true =>
          rw [hbuiltin] at harm
          cases harm
          exact hnames.not_namesClass hmem (Entity.nameOfBase_mem_declaredNames hclass)
            Entity.name_ne_nameOfBase
      | false =>
          rw [hbuiltin] at harm
          cases harm
  | enumeration hvalues =>
      cases harm
      exact hnames.not_namesClass hmem (Entity.nameOfEnum_mem_declaredNames hclass hvalues)
        fun _ => Entity.name_ne_nameOfEnum e
  | @builtin child below _ hbelow hkind =>
      cases harm
      have hbuiltin : below.kind ≠ .rdfsClass := by
        intro hsame
        rw [hsame] at hkind
        cases hkind
      exact hnames.not_namesClass (mem_entities_iff.mpr ⟨child, hbelow⟩)
        below.name_mem_declaredNames fun hsame => absurd hsame hbuiltin
  | string _ =>
      cases harm
      rw [Bool.eq_false_iff]
      intro htrue
      rcases namesClass_iff.mp htrue with ⟨f, hf, _, hsame⟩
      exact hstring f hf hsame

theorem NamesDistinct.unfoldArm_of_own {r : Registry} {o : Options} (hnames : r.NamesDistinct o)
    (hstring : ∀ e ∈ r.entities, e.name ≠ "string") {id : EntityId} {e : Entity}
    (he : r.entity? id = some e) (hclass : e.kind = .rdfsClass) {arm : TypeExpr}
    (hown : r.OwnArm o id e arm) : r.unfoldArm (r.listing o) arm = [arm] := by
  cases arm with
  | reference name =>
      exact unfoldArm_of_not_namesClass (hnames.not_namesClass_of_own hstring he hclass hown)
  | literal value => rfl
  | union arms => rfl
  | intersection arms => rfl
  | parenthesized inner => rfl
  | record fields => rfl

/-- Strings are among the arms that a class brings by itself only if it admits them. -/
theorem ownArm_string_iff {r : Registry} {o : Options}
    (hstring : ∀ e ∈ r.entities, e.name ≠ "string") {id : EntityId} {e : Entity}
    (hclass : e.kind = .rdfsClass) :
    r.OwnArm o id e .string ↔ r.admitsString e = true := by
  constructor
  · intro hown
    generalize harm : TypeExpr.string = arm at hown
    cases hown with
    | direct =>
        unfold directShape at harm
        cases hbuiltin : r.extendsBuiltin e with
        | true =>
            rw [hbuiltin] at harm
            injection harm with hname
            exact absurd hname.symm (Entity.nameOfBase_ne_string hclass)
        | false =>
            rw [hbuiltin] at harm
            cases harm
    | enumeration _ =>
        injection harm with hname
        exact absurd hname.symm (Entity.nameOfEnum_ne_string e)
    | @builtin child below _ hbelow _ =>
        injection harm with hname
        exact absurd hname.symm (hstring below (mem_entities_iff.mpr ⟨child, hbelow⟩))
    | string hadmitted => exact hadmitted
  · intro hadmitted
    exact OwnArm.string hadmitted

/-!
# The graph behind the names

A name of a class stands for the arms that the class brings and for the names of the
classes right below it.
-/

theorem settled_iff {r : Registry} {arms : List TypeExpr} :
    r.Settled arms ↔ Rounds.Settled r.IsClassName arms := by
  constructor
  · intro hsettled arm harm id hname
    rcases hname with ⟨e, he, hclass, rfl⟩
    have hnamed := namesClass_iff.mpr ⟨e, mem_entities_iff.mpr ⟨id, he⟩, hclass, rfl⟩
    rw [hsettled _ harm] at hnamed
    cases hnamed
  · intro hsettled name harm
    rw [Bool.eq_false_iff]
    intro hnamed
    rcases namesClass_iff.mp hnamed with ⟨e, hmem, hclass, rfl⟩
    rcases mem_entities_iff.mp hmem with ⟨id, he⟩
    exact hsettled _ harm id ⟨e, he, hclass, rfl⟩

theorem BringsArm.not_className {r : Registry} {o : Options} (hnames : r.NamesDistinct o)
    (hstring : ∀ e ∈ r.entities, e.name ≠ "string") {id : EntityId} {arm : TypeExpr}
    (hown : r.BringsArm o id arm) (other : EntityId) : ¬ r.IsClassName other arm := by
  intro hname
  rcases hown with ⟨e, he, hclass, hown⟩
  rcases hname with ⟨f, hf, hfClass, rfl⟩
  have hnamed := namesClass_iff.mpr ⟨f, mem_entities_iff.mpr ⟨other, hf⟩, hfClass, rfl⟩
  rw [hnames.not_namesClass_of_own hstring he hclass hown] at hnamed
  cases hnamed

theorem WellFormed.unfoldingArms {r : Registry} (h : r.WellFormed) {o : Options}
    (hnames : r.NamesDistinct o) (hstring : ∀ e ∈ r.entities, e.name ≠ "string") :
    Rounds.Unfolding (Function.swap r.ClassStep) (r.BringsArm o) r.IsClassName
      (r.unfoldArm (r.listing o)) where
  mem_name_iff := by
    intro id name hname arm
    rcases hname with ⟨e, he, hclass, rfl⟩
    rw [hnames.unfoldArm_of_class (mem_entities_iff.mpr ⟨id, he⟩) hclass,
      h.mem_arms_publicShape_iff he]
    constructor
    · intro harm
      rcases harm with hown | ⟨child, below, hparent, hbelow, hbelowClass, harm⟩
      · exact Or.inl ⟨e, he, hclass, hown⟩
      · refine Or.inr ⟨child, ⟨hparent, ?_, ?_⟩, below, hbelow, hbelowClass, harm⟩
        · exact ⟨below, hbelow, hbelowClass⟩
        · exact ⟨e, he, hclass⟩
    · intro harm
      rcases harm with ⟨known, hknown, _, hown⟩ | ⟨child, hstep, below, hbelow, hbelowClass, harm⟩
      · rw [he] at hknown
        cases hknown
        exact Or.inl hown
      · exact Or.inr ⟨child, below, hstep.left, hbelow, hbelowClass, harm⟩
  own_kept := by
    intro id arm hown
    rcases hown with ⟨e, he, hclass, hown⟩
    exact hnames.unfoldArm_of_own hstring he hclass hown
  own_not_name := fun hown => hown.not_className hnames hstring
  named := by
    intro id child hstep
    rcases hstep.right.left with ⟨below, hbelow, hclass⟩
    exact ⟨_, below, hbelow, hclass, rfl⟩

/-!
# The expansion of an alias
-/

section

variable {r : Registry} {o : Options} (h : r.WellFormed) (hnames : r.NamesDistinct o)
  (hstring : ∀ e ∈ r.entities, e.name ≠ "string") {id : EntityId} {e : Entity}
  (he : r.entity? id = some e) (hclass : e.kind = .rdfsClass)

include he hclass in
theorem covers_iff_reached {arm : TypeExpr} :
    r.Covers o id arm ↔
      ∃ d, ReflTransGen (Function.swap r.ClassStep) id d ∧ r.BringsArm o d arm := by
  have hid : r.IsClass id := ⟨e, he, hclass⟩
  constructor
  · intro hcovers
    rcases hcovers with ⟨d, f, hpath, hf, hown⟩
    exact ⟨d, reflTransGen_swap.mpr hpath, f, hf, (hid.below hpath).kind_eq hf, hown⟩
  · intro hreached
    rcases hreached with ⟨d, hpath, f, hf, _, hown⟩
    exact ⟨d, f, reflTransGen_swap.mp hpath, hf, hown⟩

include h hnames hstring he hclass

/-- As many rounds as there are entities suffice. -/
theorem exists_expandsTo : ∃ arms, r.ExpandsTo (r.listing o) e.name arms := by
  have hmem := mem_entities_iff.mpr ⟨id, he⟩
  have hid : r.IsClass id := ⟨e, he, hclass⟩
  refine ⟨_, _, r.size, hnames.typeNamed? hmem hclass, rfl, ?_⟩
  rw [settled_iff, ← hnames.unfoldArm_of_class hmem hclass]
  apply (h.unfoldingArms hnames hstring).settled_of_bound ⟨e, he, hclass, rfl⟩
  intro steps d hsteps
  have hpath := reflTransGen_swap.mp (Rounds.reflTransGen_iff_leadsBy.mpr ⟨steps, hsteps⟩)
  exact Nat.le_of_lt (h.classSteps_lt (hid.below hpath) hsteps.swap)

theorem expandsTo_iff_covers {arms : List TypeExpr}
    (hexpands : r.ExpandsTo (r.listing o) e.name arms) (arm : TypeExpr) :
    arm ∈ arms ↔ r.Covers o id arm := by
  have hmem := mem_entities_iff.mpr ⟨id, he⟩
  rcases hexpands with ⟨type, rounds, htype, hrounds, hsettled⟩
  rw [hnames.typeNamed? hmem hclass] at htype
  cases htype
  rw [← hnames.unfoldArm_of_class hmem hclass] at hrounds
  subst hrounds
  rw [settled_iff] at hsettled
  rw [covers_iff_reached he hclass]
  exact (h.unfoldingArms hnames hstring).mem_iff_of_settled ⟨e, he, hclass, rfl⟩ hsettled arm

end

theorem Covers.parent {r : Registry} {o : Options} {child parent : EntityId} {arm : TypeExpr}
    (h : r.Covers o child arm) (hstep : r.ClassStep child parent) : r.Covers o parent arm := by
  rcases h with ⟨d, e, hpath, he, hown⟩
  exact ⟨d, e, hpath.tail hstep, he, hown⟩

/--
The public alias of a class, followed through the names of classes, ends in the arms that
the class and the classes below it bring by themselves.
-/
theorem public_alias_covers_subclasses {r : Registry} (hr : r.Reachable) {o : Options}
    (hnames : r.NamesDistinct o) (hstring : ∀ e ∈ r.entities, e.name ≠ "string") :
    (∀ id e, r.entity? id = some e → e.kind = .rdfsClass →
      (∃ arms, r.ExpandsTo (r.listing o) e.name arms) ∧
        ∀ arms, r.ExpandsTo (r.listing o) e.name arms →
          (∀ arm, arm ∈ arms ↔ r.Covers o id arm) ∧
            (.string ∈ arms ↔ ∃ d f, ReflTransGen r.ClassStep d id ∧ r.entity? d = some f ∧
              r.admitsString f = true)) ∧
      ∀ child parent e above arms others, r.ClassStep child parent →
        r.entity? child = some e → r.entity? parent = some above →
          r.ExpandsTo (r.listing o) e.name arms →
            r.ExpandsTo (r.listing o) above.name others → arms ⊆ others := by
  have h := hr.wellFormed
  constructor
  · intro id e he hclass
    have hid : r.IsClass id := ⟨e, he, hclass⟩
    refine ⟨exists_expandsTo h hnames hstring he hclass, ?_⟩
    intro arms hexpands
    have hcovers := expandsTo_iff_covers h hnames hstring he hclass hexpands
    refine ⟨hcovers, ?_⟩
    rw [hcovers]
    constructor
    · intro hcovered
      rcases hcovered with ⟨d, f, hpath, hf, hown⟩
      have hbelowClass := (hid.below hpath).kind_eq hf
      exact ⟨d, f, hpath, hf, (ownArm_string_iff hstring hbelowClass).mp hown⟩
    · intro hadmitted
      rcases hadmitted with ⟨d, f, hpath, hf, hadmits⟩
      exact ⟨d, f, hpath, hf, OwnArm.string hadmits⟩
  · intro child parent e above arms others hstep he habove hexpands hothers arm harm
    have hclass := hstep.right.left.kind_eq he
    have haboveClass := hstep.right.right.kind_eq habove
    rw [expandsTo_iff_covers h hnames hstring he hclass hexpands] at harm
    rw [expandsTo_iff_covers h hnames hstring habove haboveClass hothers]
    exact harm.parent hstep

/-- Calls that put a class with values and a data type below a class with a parent. -/
def workCalls : List Call :=
  [.insertClass ⟨"Thing", "s:Thing"⟩ false,
    .insertClass ⟨"Work", "s:Work"⟩ false,
    .insertClass ⟨"Book", "s:Book"⟩ true,
    .insertBuiltin "s/Label" "string" "",
    .assert 1 (Statement.subclassOf ⟨"Thing", "s:Thing"⟩).toFact,
    .assert 2 (Statement.subclassOf ⟨"Work", "s:Work"⟩).toFact,
    .assert 2 (Statement.subclassOf ⟨"Thing", "s:Thing"⟩).toFact,
    .assert 3 (Statement.subclassOf ⟨"Work", "s:Work"⟩).toFact,
    .addEnumValue 2 ⟨⟨"One", "s:One"⟩, none⟩]

def workRegistry : Registry :=
  empty.run workCalls

theorem public_alias_of_thing :
    workRegistry.Reachable ∧ workRegistry.NamesDistinct .standard ∧
      (∀ e ∈ workRegistry.entities, e.name ≠ "string") ∧
        ∃ arms others,
          workRegistry.ExpandsTo (workRegistry.listing .standard) "Thing" arms ∧
            workRegistry.ExpandsTo (workRegistry.listing .standard) "Work" others ∧
              others ⊆ arms ∧ .reference "BookEnum" ∈ arms ∧ .reference "Label" ∈ others ∧
                .string ∈ others := by
  have hr : workRegistry.Reachable := ⟨workCalls, rfl⟩
  have hdeclared : workRegistry.entities.flatMap Entity.declaredNames =
      ["ThingBase", "Thing", "WorkBase", "Work", "BookEnum", "BookBase", "Book", "Label"] := by
    cbv
  have hnames : workRegistry.NamesDistinct .standard := by
    rw [namesDistinct_iff, hdeclared]
    decide
  have hnamed : workRegistry.entities.map Entity.name = ["Thing", "Work", "Book", "Label"] := by
    cbv
  have hstring : ∀ e ∈ workRegistry.entities, e.name ≠ "string" := by
    intro e he hsame
    have hmem : e.name ∈ workRegistry.entities.map Entity.name := List.mem_map_of_mem he
    rw [hnamed, hsame] at hmem
    exact absurd hmem (by decide)
  have hthing : (workRegistry.entity? 0).map (fun e => (e.kind, e.name)) =
      some (.rdfsClass, "Thing") := by
    cbv
  have hwork : (workRegistry.entity? 1).map (fun e => (e.kind, e.name)) =
      some (.rdfsClass, "Work") := by
    cbv
  have hbook : (workRegistry.entity? 2).map
      (fun e => (e.kind, e.nameOfEnum, e.allowString, e.enumValues.length)) =
        some (.rdfsClass, "BookEnum", true, 1) := by
    cbv
  have hlabel : (workRegistry.entity? 3).map (fun e => (e.kind.isBuiltin, e.name)) =
      some (true, "Label") := by
    cbv
  have hparents : workRegistry.parentsOf 1 = [0] ∧ workRegistry.parentsOf 2 = [1, 0] ∧
      workRegistry.parentsOf 3 = [1] := by
    cbv
  rcases Option.map_eq_some_iff.mp hthing with ⟨thing, hthing, hthingIs⟩
  rcases Option.map_eq_some_iff.mp hwork with ⟨work, hwork, hworkIs⟩
  rcases Option.map_eq_some_iff.mp hbook with ⟨book, hbook, hbookIs⟩
  rcases Option.map_eq_some_iff.mp hlabel with ⟨label, hlabel, hlabelIs⟩
  simp only [Prod.mk.injEq] at hthingIs hworkIs hbookIs hlabelIs
  have hworkStep : workRegistry.ClassStep 1 0 := by
    refine ⟨by simp [IsParent, hparents.left], ⟨work, hwork, hworkIs.left⟩, ?_⟩
    exact ⟨thing, hthing, hthingIs.left⟩
  have hbookStep : workRegistry.ClassStep 2 1 := by
    refine ⟨by simp [IsParent, hparents.right.left], ⟨book, hbook, hbookIs.left⟩, ?_⟩
    exact ⟨work, hwork, hworkIs.left⟩
  have halias := public_alias_covers_subclasses hr hnames hstring
  rcases (halias.left 0 thing hthing hthingIs.left).left with ⟨arms, harms⟩
  rcases halias.left 1 work hwork hworkIs.left with ⟨⟨others, hothers⟩, hwhich⟩
  rcases hwhich others hothers with ⟨hcovers, hadmits⟩
  have hcontained := halias.right 1 0 work thing others arms hworkStep hwork hthing hothers harms
  have hpath : ReflTransGen workRegistry.ClassStep 2 1 := ReflTransGen.single hbookStep
  have hbookEnum : TypeExpr.reference "BookEnum" ∈ others := by
    rw [hcovers, ← hbookIs.right.left]
    refine ⟨2, book, hpath, hbook, OwnArm.enumeration ?_⟩
    intro hnil
    rw [hnil] at hbookIs
    exact absurd hbookIs.right.right.right (by decide)
  have hlabelArm : TypeExpr.reference "Label" ∈ others := by
    rw [hcovers, ← hlabelIs.right]
    refine ⟨1, work, ReflTransGen.refl, hwork, OwnArm.builtin ?_ hlabel hlabelIs.left⟩
    simp [IsParent, hparents.right.right]
  have hstringArm : TypeExpr.string ∈ others := by
    rw [hadmits]
    refine ⟨2, book, hpath, hbook, ?_⟩
    rw [admitsString, hbookIs.right.right.left, Bool.true_or]
  rw [hthingIs.right] at harms
  rw [hworkIs.right] at hothers
  exact ⟨hr, hnames, hstring, arms, others, harms, hothers, hcontained, hcontained hbookEnum,
    hlabelArm, hstringArm⟩

end Registry
end VocabTypes
