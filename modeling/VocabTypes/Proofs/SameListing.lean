import Mathlib.Data.List.Forall2
import Mathlib.Data.List.Nodup
import VocabTypes.Proofs.SameOutlines

/-!
# Equal listings

## Registries with the same outlines generate the same

Everything that is printed about an entity reads its content, the IRIs of its links
or what its ancestors are, and its children in a sorted order.  The listing of all
entities is sorted too, and entities that compare equal have one IRI.
-/

namespace VocabTypes

namespace Entity

theorem isBuiltin_content (e : Entity) : e.kind.isBuiltin = e.content.kind.isBuiltin :=
  e.kind.isBuiltin_unlinked.symm

theorem nameOfBase_content (e : Entity) : e.nameOfBase = e.content.nameOfBase := by
  rw [nameOfBase, nameOfBase, ← e.isBuiltin_content]
  rfl

end Entity

namespace Registry

/-!
# What is read of links

A base type reads the names of parents, and a union those of its members.
-/

/-- The base types of some names, taken together. -/
def baseOfNames : List String → Option TypeExpr
  | [] => none
  | [name] => some (.reference name)
  | names => some (.intersection (names.map .reference))

theorem parentBase?_eq (r : Registry) (e : Entity) :
    r.parentBase? e = baseOfNames ((r.resolve e.parents).map Entity.nameOfBase) := by
  unfold parentBase?
  cases r.resolve e.parents with
  | nil => rfl
  | cons first rest =>
      cases rest with
      | nil => rfl
      | cons second rest => simp [baseOfNames]

theorem declarations_eq (r : Registry) (o : Options) (e : Entity) :
    r.declarations o e =
      match e.kind.unlinked with
      | .rdfsClass => r.declarationsOfClass o e
      | .builtin typeName doc => [.typeAlias e.name (unlessEmpty doc) (.reference typeName)]
      | .booleanEnum trueUrl falseUrl doc =>
          [.enumeration e.name (unlessEmpty doc)
            [⟨"True", trueUrl, none⟩, ⟨"False", falseUrl, none⟩]]
      | .dataTypeUnion _ doc =>
          [.typeAlias e.name (unlessEmpty doc)
            (.union (((r.resolve e.kind.members).map Entity.name).map .reference))] := by
  unfold declarations
  cases e.kind with
  | rdfsClass => rfl
  | builtin typeName doc => rfl
  | booleanEnum trueUrl falseUrl doc => rfl
  | dataTypeUnion members doc =>
      rw [List.map_map]
      rfl

/-- Entities of two registries about which the two registries say the same. -/
structure Alike (r s : Registry) (e f : Entity) : Prop where
  registries : r.SameOutlines s
  left : r.WellFormed
  right : s.WellFormed
  mem_left : ∃ id, r.entity? id = some e
  mem_right : ∃ id, s.entity? id = some f
  outlines : r.outline e = s.outline f

namespace Alike

variable {r s : Registry} {e f : Entity}

/-!
# What the outline holds
-/

theorem content (h : Alike r s e f) : e.content = f.content :=
  congrArg Outline.content h.outlines

theorem read {β : Type} (h : Alike r s e f) {g : Entity → β} (hg : ∀ e, g e = g e.content) :
    g e = g f := by
  rw [hg e, hg f, h.content]

theorem subject (h : Alike r s e f) : e.subject = f.subject :=
  h.read fun _ => rfl

theorem name (h : Alike r s e f) : e.name = f.name :=
  h.read fun _ => rfl

theorem comment (h : Alike r s e f) : e.comment = f.comment :=
  h.read fun _ => rfl

theorem properties (h : Alike r s e f) : e.properties = f.properties :=
  h.read fun _ => rfl

theorem enumValues (h : Alike r s e f) : e.enumValues = f.enumValues :=
  h.read fun _ => rfl

theorem unlinked (h : Alike r s e f) : e.kind.unlinked = f.kind.unlinked :=
  congrArg Entity.kind h.content

theorem nameOfBase (h : Alike r s e f) : e.nameOfBase = f.nameOfBase :=
  h.read Entity.nameOfBase_content

theorem parents (h : Alike r s e f) : r.hrefs e.parents = s.hrefs f.parents :=
  congrArg Outline.parents h.outlines

theorem replacements (h : Alike r s e f) : r.hrefs e.replacements = s.hrefs f.replacements :=
  congrArg Outline.replacements h.outlines

theorem members (h : Alike r s e f) : r.hrefs e.kind.members = s.hrefs f.kind.members :=
  congrArg Outline.members h.outlines

theorem isRoot (h : Alike r s e f) : e.isRoot = f.isRoot := by
  rcases h.mem_left with ⟨id, he⟩
  rcases h.mem_right with ⟨other, hf⟩
  have hparents : (r.hrefs e.parents).isEmpty = (s.hrefs f.parents).isEmpty := by
    rw [h.parents]
  rw [isEmpty_hrefs (h.left.issued.parents_lt he),
    isEmpty_hrefs (h.right.issued.parents_lt hf)] at hparents
  exact hparents

theorem deprecated (h : Alike r s e f) : e.deprecated = f.deprecated := by
  rcases h.mem_left with ⟨id, he⟩
  rcases h.mem_right with ⟨other, hf⟩
  have hreplacements : (r.hrefs e.replacements).isEmpty = (s.hrefs f.replacements).isEmpty := by
    rw [h.replacements]
  rw [isEmpty_hrefs (h.left.issued.replacements_lt he),
    isEmpty_hrefs (h.right.issued.replacements_lt hf)] at hreplacements
  rw [Entity.deprecated, Entity.deprecated, hreplacements]

/-!
# What is inherited
-/

theorem extendsBuiltin (h : Alike r s e f) : r.extendsBuiltin e = s.extendsBuiltin f := by
  rcases h.mem_left with ⟨id, he⟩
  rcases h.mem_right with ⟨other, hf⟩
  rw [Bool.eq_iff_iff, h.left.indexed.extendsBuiltin_iff_names he,
    h.right.indexed.extendsBuiltin_iff_names hf, h.registries.namesParent_eq,
    funext h.registries, Entity.href, Entity.href, h.subject]

theorem admitsString (h : Alike r s e f) : r.admitsString e = s.admitsString f := by
  rcases h.mem_left with ⟨id, he⟩
  rcases h.mem_right with ⟨other, hf⟩
  rw [Bool.eq_iff_iff, h.left.indexed.admitsString_iff_names he,
    h.right.indexed.admitsString_iff_names hf, h.registries.namesParent_eq,
    funext h.registries, Entity.href, Entity.href, h.subject]

/-!
# Links
-/

theorem map_parents {β : Type} (h : Alike r s e f) {g : Entity → β}
    (hg : ∀ e, g e = g e.content) :
    (r.resolve e.parents).map g = (s.resolve f.parents).map g :=
  h.registries.map_resolve h.left.indexed h.right.indexed h.parents hg

theorem count_children (h : Alike r s e f) (href : String) :
    (r.hrefs e.children).count href = (s.hrefs f.children).count href := by
  rcases h.mem_left with ⟨id, he⟩
  rcases h.mem_right with ⟨other, hf⟩
  rw [h.left.count_children he, h.right.count_children hf, h.registries, Entity.href,
    Entity.href, h.subject]

/-- The children of an entity, each as often as it is one, whatever their order. -/
theorem children_perm (h : Alike r s e f) :
    ((r.resolve e.children).map Entity.subject).Perm
      ((s.resolve f.children).map Entity.subject) := by
  have hhrefs : (r.hrefs e.children).Perm (s.hrefs f.children) :=
    List.perm_iff_count.mpr h.count_children
  have hsubjects := (hhrefs.filterMap r.outline?).map fun o => o.content.subject
  rw [← h.left.indexed.map_outline_resolve, funext h.registries,
    ← h.right.indexed.map_outline_resolve, List.map_map, List.map_map] at hsubjects
  exact hsubjects

theorem map_name_childrenInOrder (h : Alike r s e f) :
    (r.childrenInOrder e).map Entity.name = (s.childrenInOrder f).map Entity.name := by
  have hsorted := Identifier.map_sortOn_eq_of_perm h.children_perm
  have hnames := congrArg (List.map Identifier.name) hsorted
  rw [List.map_map, List.map_map] at hnames
  exact hnames

theorem map_name_replacements (h : Alike r s e f) :
    (r.resolve e.replacements).map Entity.name = (s.resolve f.replacements).map Entity.name :=
  h.registries.map_resolve h.left.indexed h.right.indexed h.replacements fun _ => rfl

theorem map_name_members (h : Alike r s e f) :
    (r.resolve e.kind.members).map Entity.name = (s.resolve f.kind.members).map Entity.name :=
  h.registries.map_resolve h.left.indexed h.right.indexed h.members fun _ => rfl

/-!
# Types
-/

theorem parentBase? (h : Alike r s e f) : r.parentBase? e = s.parentBase? f := by
  rw [parentBase?_eq, parentBase?_eq, h.map_parents Entity.nameOfBase_content]

theorem ownRecord? (h : Alike r s e f) (o : Options) : e.ownRecord? o = f.ownRecord? o := by
  have hfields : e.ownFields o = f.ownFields o := by
    rw [Entity.ownFields, Entity.ownFields, h.isRoot, Entity.propertiesInOrder,
      Entity.propertiesInOrder, h.properties]
  rw [Entity.ownRecord?, Entity.ownRecord?, hfields]

theorem baseShape (h : Alike r s e f) (o : Options) : r.baseShape o e = s.baseShape o f := by
  rw [Registry.baseShape, Registry.baseShape, h.parentBase?, h.ownRecord?]

theorem directShape (h : Alike r s e f) (o : Options) :
    r.directShape o e = s.directShape o f := by
  rw [Registry.directShape, Registry.directShape, h.extendsBuiltin, h.nameOfBase,
    Entity.classField, Entity.classField, h.subject]

theorem otherArms (h : Alike r s e f) : r.otherArms e = s.otherArms f := by
  have hreferences := congrArg (List.map TypeExpr.reference) h.map_name_childrenInOrder
  rw [List.map_map, List.map_map] at hreferences
  have hchildren :
      ((r.childrenInOrder e).map fun child => TypeExpr.reference child.name) =
        (s.childrenInOrder f).map fun child => TypeExpr.reference child.name := hreferences
  rw [Registry.otherArms, Registry.otherArms, hchildren, h.admitsString]

theorem publicShape (h : Alike r s e f) (o : Options) :
    r.publicShape o e = s.publicShape o f := by
  have hinstances : r.instanceShape o e = s.instanceShape o f := by
    rw [instanceShape, instanceShape, h.otherArms, h.directShape]
  rw [Registry.publicShape, Registry.publicShape, h.enumValues, hinstances, Entity.nameOfEnum,
    Entity.nameOfEnum, h.name]

theorem documentation (h : Alike r s e f) : r.documentation e = s.documentation f := by
  have hnotice : r.deprecationNotice e = s.deprecationNotice f :=
    congrArg (fun names => "@deprecated Use " ++ " or ".intercalate names ++ " instead.")
      h.map_name_replacements
  rw [Registry.documentation, Registry.documentation, h.deprecated, h.comment, hnotice]

/-!
# Declarations
-/

theorem declarationsOfClass (h : Alike r s e f) (o : Options) :
    r.declarationsOfClass o e = s.declarationsOfClass o f := by
  have henumeration : e.enumeration = f.enumeration := by
    rw [Entity.enumeration, Entity.enumeration, Entity.enumValuesInOrder,
      Entity.enumValuesInOrder, h.enumValues, Entity.nameOfEnum, Entity.nameOfEnum, h.name]
  rw [Registry.declarationsOfClass, Registry.declarationsOfClass, henumeration, h.nameOfBase,
    h.baseShape, h.name, h.documentation, h.publicShape]

theorem declarations (h : Alike r s e f) (o : Options) :
    r.declarations o e = s.declarations o f := by
  rw [declarations_eq, declarations_eq, h.unlinked, h.name, h.declarationsOfClass,
    h.map_name_members]

end Alike

/-!
# The global order

No two entities have the same IRI, so those of two registries with the same outlines
can be paired off.
-/

theorem Indexed.nodup_hrefs {r : Registry} (h : r.Indexed) :
    (r.entities.map Entity.href).Nodup := by
  rw [List.nodup_iff_getElem?_ne_getElem?]
  intro i j hlt hj hsame
  rw [List.getElem?_map, List.getElem?_map] at hsame
  rw [List.length_map] at hj
  have hi : i < r.size := Nat.lt_trans hlt hj
  rcases (r.lt_size_iff i).mp hi with ⟨e, he⟩
  rcases (r.lt_size_iff j).mp hj with ⟨f, hf⟩
  have hfirst : r.entities[i]? = some e := he
  have hsecond : r.entities[j]? = some f := hf
  rw [hfirst, hsecond, Option.map_some, Option.map_some, Option.some.injEq] at hsame
  have hfound := h.find?_href he
  rw [hsame, h.find?_href hf] at hfound
  cases hfound
  exact Nat.lt_irrefl i hlt

theorem Indexed.mem_map_outline_iff {r : Registry} (h : r.Indexed) {o : Outline} :
    o ∈ r.entities.map r.outline ↔ r.outline? o.content.href = some o := by
  rw [List.mem_map]
  constructor
  · intro ho
    rcases ho with ⟨e, hmem, houtline⟩
    rcases mem_entities_iff.mp hmem with ⟨id, he⟩
    rw [← houtline]
    exact h.outline?_href he
  · intro ho
    rcases Option.map_eq_some_iff.mp ho with ⟨e, hentity, houtline⟩
    rcases h.entityOf?_eq_some_iff.mp hentity with ⟨id, he, _⟩
    exact ⟨e, mem_entities_iff.mpr ⟨id, he⟩, houtline⟩

theorem Indexed.nodup_outlines {r : Registry} (h : r.Indexed) :
    (r.entities.map r.outline).Nodup := by
  apply List.Nodup.of_map fun o => o.content.href
  rw [List.map_map]
  exact h.nodup_hrefs

theorem SameOutlines.outlines_perm {r s : Registry} (h : SameOutlines r s) (hr : r.Indexed)
    (hs : s.Indexed) : (r.entities.map r.outline).Perm (s.entities.map s.outline) := by
  rw [List.perm_ext_iff_of_nodup hr.nodup_outlines hs.nodup_outlines]
  intro o
  rw [hr.mem_map_outline_iff, hs.mem_map_outline_iff, h]

theorem map_outline_entitiesInOrder (r : Registry) :
    r.entitiesInOrder.map r.outline =
      (r.entities.map r.outline).mergeSort
        fun a b => (compareOn Outline.content a b).isLE := by
  rw [entitiesInOrder_eq]
  apply List.map_mergeSort
  intro a _ b _
  have hrank : ∀ e : Entity, e.content.kind.rank = e.kind.rank := fun e => e.kind.rank_unlinked
  show (compareLex (compareOn fun e : Entity => e.kind.rank) (compareOn Entity.subject) a b).isLE =
    (compareLex (compareOn fun e : Entity => e.kind.rank) (compareOn Entity.subject)
      a.content b.content).isLE
  simp only [compareLex, compareOn, hrank]
  rfl

/-- Sorting leaves no choice: outlines of one registry that compare equal are equal. -/
theorem SameOutlines.map_outline_entitiesInOrder {r s : Registry} (h : SameOutlines r s)
    (hr : r.Indexed) (hs : s.Indexed) :
    r.entitiesInOrder.map r.outline = s.entitiesInOrder.map s.outline := by
  rw [Registry.map_outline_entitiesInOrder, Registry.map_outline_entitiesInOrder]
  apply mergeSort_eq_of_perm (h.outlines_perm hr hs)
  intro a ha b hb hcompare
  have hsubject : a.content.subject = b.content.subject := Entity.subject_eq_of_compare hcompare
  have hfirst := hr.mem_map_outline_iff.mp ha
  have hsecond := hs.mem_map_outline_iff.mp hb
  rw [h, Entity.href, hsubject] at hfirst
  rw [Entity.href, hfirst] at hsecond
  cases hsecond
  rfl

theorem exists_entity?_of_mem_entitiesInOrder {r : Registry} {e : Entity}
    (he : e ∈ r.entitiesInOrder) : ∃ id, r.entity? id = some e :=
  mem_entities_iff.mp (mem_entitiesInOrder_iff.mp he)

theorem SameOutlines.alike_entitiesInOrder {r s : Registry} (h : SameOutlines r s)
    (hr : r.WellFormed) (hs : s.WellFormed) :
    List.Forall₂ (Alike r s) r.entitiesInOrder s.entitiesInOrder := by
  have houtlines : List.Forall₂ (fun e f => r.outline e = s.outline f)
      r.entitiesInOrder s.entitiesInOrder := by
    have hmaps := h.map_outline_entitiesInOrder hr.indexed hs.indexed
    rw [← List.forall₂_eq_eq_eq, List.forall₂_map_left_iff, List.forall₂_map_right_iff] at hmaps
    exact hmaps
  have hleft := (List.forall₂_and_left _ _).mpr
    ⟨fun _ => exists_entity?_of_mem_entitiesInOrder (r := r), houtlines⟩
  have hright := (List.forall₂_and_left _ _).mpr
    ⟨fun _ => exists_entity?_of_mem_entitiesInOrder (r := s), houtlines.flip⟩
  apply List.Forall₂.mp _ hleft hright.flip
  intro e f he hf
  exact ⟨h, hr, hs, he.left, hf.left, he.right⟩

/-!
# The listing
-/

end Registry

/-- Two listings with equal declarations and counts; the diagnostics may differ. -/
structure Listing.SameOutput (a b : Listing) : Prop where
  declarations : a.declarations = b.declarations
  entities : a.report.entities = b.report.entities
  enumerations : a.report.enumerations = b.report.enumerations
  aliases : a.report.aliases = b.report.aliases
  deprecated : a.report.deprecated = b.report.deprecated

namespace Registry

theorem flatMap_declarations_eq {r s : Registry} (o : Options) {items others : List Entity}
    (h : List.Forall₂ (Alike r s) items others) :
    items.flatMap (r.declarations o) = others.flatMap (s.declarations o) := by
  induction h with
  | nil => rfl
  | cons halike _ ih => rw [List.flatMap_cons, List.flatMap_cons, halike.declarations o, ih]

theorem countP_deprecated_eq {r s : Registry} {items others : List Entity}
    (h : List.Forall₂ (Alike r s) items others) :
    items.countP (fun e => e.deprecated) = others.countP fun e => e.deprecated := by
  induction h with
  | nil => rfl
  | cons halike _ ih => rw [List.countP_cons, List.countP_cons, halike.deprecated, ih]

theorem SameOutlines.sameOutput {r s : Registry} (h : SameOutlines r s) (hr : r.WellFormed)
    (hs : s.WellFormed) (o : Options) : (r.listing o).SameOutput (s.listing o) := by
  have halike := h.alike_entitiesInOrder hr hs
  have hdeclarations : r.declarationsInOrder o = s.declarationsInOrder o :=
    flatMap_declarations_eq o halike
  exact
    { declarations := hdeclarations
      entities := halike.length_eq
      enumerations := congrArg (List.countP fun d : Declaration => d.isEnumeration) hdeclarations
      aliases := congrArg (List.countP fun d : Declaration => !d.isEnumeration) hdeclarations
      deprecated := countP_deprecated_eq halike }

end Registry
end VocabTypes
