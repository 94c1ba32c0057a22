import Mathlib.Data.Option.Basic
import VocabTypes.Proofs.Acyclic
import VocabTypes.Proofs.SameListing

/-!
# Checked lookups

## Generating without a lookup that fails

Generating looks entities up by the ids that other entities hold.  Here it is done with
every lookup checked, so that an id that was never issued leaves no result at all.  In
a well-formed registry there is always a result, and it is the one that generating
without checks gives.
-/

namespace VocabTypes
namespace Registry

/-!
# Shapes with checked lookups
-/

/-- The entities behind a list of ids, all of which have to be issued. -/
def resolve? (r : Registry) (ids : List EntityId) : Option (List Entity) :=
  ids.mapM r.entity?

def checkedBaseShape (r : Registry) (o : Options) (id : EntityId) : Option TypeExpr := do
  let e ← r.entity? id
  let parents ← r.resolve? e.parents
  return .both (baseOfNames (parents.map Entity.nameOfBase)) (e.ownRecord? o)

def checkedDirectShape (r : Registry) (o : Options) (id : EntityId) : Option TypeExpr := do
  let e ← r.entity? id
  let untagged ← r.extendsBuiltinWithin r.size id
  return if untagged then .reference e.nameOfBase
    else .intersection [.record [e.classField o], .reference e.nameOfBase]

def checkedInstanceShape (r : Registry) (o : Options) (id : EntityId) : Option TypeExpr := do
  let e ← r.entity? id
  let children ← r.resolve? e.children
  let bare ← r.admitsStringWithin r.size id
  let direct ← r.checkedDirectShape o id
  let names := (Identifier.sortOn Entity.subject children).map fun child => .reference child.name
  return match names ++ if bare then [.string] else [] with
    | [] => direct
    | [arm] => .union [direct, arm]
    | arms => .union [direct, .parenthesized (.union arms)]

def checkedPublicShape (r : Registry) (o : Options) (id : EntityId) : Option TypeExpr := do
  let e ← r.entity? id
  let instances ← r.checkedInstanceShape o id
  return match e.enumValues with
    | [] => instances
    | _ :: _ => .union [.reference e.nameOfEnum, .parenthesized instances]

def checkedDocumentation (r : Registry) (id : EntityId) : Option (Option String) := do
  let e ← r.entity? id
  let replacements ← r.resolve? e.replacements
  let notice := "@deprecated Use " ++ " or ".intercalate (replacements.map Entity.name) ++
    " instead."
  return if e.deprecated then
      match e.comment with
      | none => some notice
      | some comment => some (comment ++ "\n" ++ notice)
    else e.comment

/-!
# Listings with checked lookups
-/

def checkedDeclarations (r : Registry) (o : Options) (id : EntityId) :
    Option (List Declaration) := do
  let e ← r.entity? id
  match e.kind with
  | .rdfsClass =>
      let base ← r.checkedBaseShape o id
      let documentation ← r.checkedDocumentation id
      let whole ← r.checkedPublicShape o id
      return e.enumeration ++
        [.typeAlias e.nameOfBase none base, .typeAlias e.name documentation whole]
  | .builtin typeName doc => return [.typeAlias e.name (unlessEmpty doc) (.reference typeName)]
  | .booleanEnum trueUrl falseUrl doc =>
      return [.enumeration e.name (unlessEmpty doc)
        [⟨"True", trueUrl, none⟩, ⟨"False", falseUrl, none⟩]]
  | .dataTypeUnion members doc =>
      let scalars ← r.resolve? members
      return [.typeAlias e.name (unlessEmpty doc)
        (.union (scalars.map fun member => .reference member.name))]

/-- All ids in global order, each of which is looked up to be compared with others. -/
def checkedIdsInOrder (r : Registry) : Option (List EntityId) := do
  let entities ← r.resolve? (List.range r.size)
  return (entities.zipIdx.mergeSort fun a b => (compare a.1 b.1).isLE).map Prod.snd

def checkedListing (r : Registry) (o : Options) : Option Listing := do
  let ids ← r.checkedIdsInOrder
  let entities ← r.resolve? ids
  let declarations ← ids.mapM (r.checkedDeclarations o)
  return {
    declarations := declarations.flatten
    report :=
      { entities := entities.length
        enumerations := declarations.flatten.countP fun d => d.isEnumeration
        aliases := declarations.flatten.countP fun d => !d.isEnumeration
        deprecated := entities.countP fun e => e.deprecated
        diagnostics := r.diagnostics } }

/-!
# Lookups that succeed
-/

theorem mapM_eq_some_map {α β : Type} {f : α → Option β} {g : α → β} {items : List α}
    (h : ∀ item ∈ items, f item = some (g item)) : items.mapM f = some (items.map g) := by
  induction items with
  | nil => rfl
  | cons item items ih =>
      have hrest := ih fun other hother => h other (List.mem_cons_of_mem item hother)
      rw [List.mapM_cons, h item List.mem_cons_self, hrest]
      rfl

theorem resolve?_eq_of_lt {r : Registry} {ids : List EntityId} (hids : ∀ id ∈ ids, id < r.size) :
    r.resolve? ids = some (r.resolve ids) := by
  induction ids with
  | nil => rfl
  | cons id ids ih =>
      rcases (r.lt_size_iff id).mp (hids id List.mem_cons_self) with ⟨e, he⟩
      have hrest := ih fun other hother => hids other (List.mem_cons_of_mem id hother)
      rw [resolve?] at hrest
      rw [resolve?, List.mapM_cons, he, hrest, resolve, resolve, List.filterMap_cons_some he]
      rfl

theorem resolve_range (r : Registry) : r.resolve (List.range r.size) = r.entities := by
  have hmap : (r.resolve (List.range r.size)).map some = r.entities.map some := by
    rw [map_some_resolve fun id hid => List.mem_range.mp hid]
    apply List.ext_getElem?
    intro id
    rw [List.getElem?_map, List.getElem?_map]
    by_cases hid : id < r.size
    · rcases (r.lt_size_iff id).mp hid with ⟨e, he⟩
      rw [List.getElem?_range hid, Option.map_some, he]
      rw [entity?] at he
      rw [he, Option.map_some]
    · have hle := Nat.le_of_not_lt hid
      have hrange : (List.range r.size)[id]? = none :=
        List.getElem?_eq_none (by rw [List.length_range]; exact hle)
      have hentities : r.entities[id]? = none := List.getElem?_eq_none hle
      rw [hrange, hentities]
      rfl
  exact List.map_injective_iff.mpr (Option.some_injective Entity) hmap

theorem checkedIdsInOrder_eq (r : Registry) : r.checkedIdsInOrder = some r.idsInOrder := by
  rw [checkedIdsInOrder, resolve?_eq_of_lt fun id hid => List.mem_range.mp hid, resolve_range]
  rfl

theorem mem_inOrder_iff {r : Registry} {e : Entity} {id : EntityId} :
    (e, id) ∈ r.inOrder ↔ r.entity? id = some e := by
  rw [inOrder, List.mem_mergeSort, List.mem_zipIdx_iff_getElem?, entity?]

theorem mem_idsInOrder_iff {r : Registry} {id : EntityId} :
    id ∈ r.idsInOrder ↔ id < r.size := by
  rw [idsInOrder, List.mem_map, lt_size_iff]
  constructor
  · intro hid
    rcases hid with ⟨⟨e, other⟩, hmem, rfl⟩
    exact ⟨e, mem_inOrder_iff.mp hmem⟩
  · intro hid
    rcases hid with ⟨e, he⟩
    exact ⟨(e, id), mem_inOrder_iff.mpr he, rfl⟩

theorem map_some_entitiesInOrder (r : Registry) :
    r.idsInOrder.map r.entity? = r.entitiesInOrder.map some := by
  rw [idsInOrder, entitiesInOrder, List.map_map, List.map_map]
  apply List.map_congr_left
  intro pair hpair
  rcases pair with ⟨e, id⟩
  exact mem_inOrder_iff.mp hpair

theorem resolve_idsInOrder (r : Registry) : r.resolve r.idsInOrder = r.entitiesInOrder := by
  have hmap := map_some_resolve (r := r) fun id hid => mem_idsInOrder_iff.mp hid
  rw [map_some_entitiesInOrder] at hmap
  exact List.map_injective_iff.mpr (Option.some_injective Entity) hmap

/-!
# The shapes of an issued entity
-/

section

variable {r : Registry} (h : r.WellFormed) {id : EntityId} {e : Entity}
  (he : r.entity? id = some e)

include h he

theorem WellFormed.chainsWithin_size : r.ChainsWithin r.size id := by
  intro chain hchain
  exact h.chain_length_le ((r.lt_size_iff id).mpr ⟨e, he⟩) hchain

theorem WellFormed.checkedBaseShape_eq (o : Options) :
    r.checkedBaseShape o id = some (r.baseShape o e) := by
  rw [checkedBaseShape, he, Option.bind_eq_bind, Option.bind_some,
    resolve?_eq_of_lt (h.issued.parents_lt he), baseShape, parentBase?_eq]
  rfl

theorem WellFormed.checkedDirectShape_eq (o : Options) :
    r.checkedDirectShape o id = some (r.directShape o e) := by
  rw [checkedDirectShape, he, Option.bind_eq_bind, Option.bind_some,
    h.extendsBuiltinWithin_eq he (h.chainsWithin_size he), directShape]
  rfl

theorem WellFormed.checkedInstanceShape_eq (o : Options) :
    r.checkedInstanceShape o id = some (r.instanceShape o e) := by
  rw [checkedInstanceShape, he, Option.bind_eq_bind, Option.bind_some,
    resolve?_eq_of_lt (h.issued.children_lt he),
    h.admitsStringWithin_eq he (h.chainsWithin_size he), h.checkedDirectShape_eq he,
    instanceShape, otherArms, childrenInOrder]
  rfl

theorem WellFormed.checkedPublicShape_eq (o : Options) :
    r.checkedPublicShape o id = some (r.publicShape o e) := by
  rw [checkedPublicShape, he, Option.bind_eq_bind, Option.bind_some,
    h.checkedInstanceShape_eq he, publicShape]
  rfl

theorem WellFormed.checkedDocumentation_eq :
    r.checkedDocumentation id = some (r.documentation e) := by
  rw [checkedDocumentation, he, Option.bind_eq_bind, Option.bind_some,
    resolve?_eq_of_lt (h.issued.replacements_lt he), documentation]
  rfl

theorem WellFormed.checkedDeclarations_eq (o : Options) :
    r.checkedDeclarations o id = some (r.declarations o e) := by
  have hmembers := h.issued.members_lt he
  rw [checkedDeclarations, he, Option.bind_eq_bind, Option.bind_some, declarations]
  cases hkind : e.kind with
  | rdfsClass =>
      rw [h.checkedBaseShape_eq he, h.checkedDocumentation_eq he, h.checkedPublicShape_eq he]
      rfl
  | builtin typeName doc => rfl
  | booleanEnum trueUrl falseUrl doc => rfl
  | dataTypeUnion members doc =>
      have hissued : ∀ member ∈ members, member < r.size := by
        rw [hkind] at hmembers
        exact hmembers
      simp only [resolve?_eq_of_lt hissued]
      rfl

end

/-- Checked lookups make no difference to what is found for the entity at a position. -/
structure ChecksOut (r : Registry) (o : Options) (id : EntityId) (e : Entity) : Prop where
  extendsBuiltin : r.extendsBuiltinWithin r.size id = some (r.extendsBuiltin e)
  admitsString : r.admitsStringWithin r.size id = some (r.admitsString e)
  baseShape : r.checkedBaseShape o id = some (r.baseShape o e)
  directShape : r.checkedDirectShape o id = some (r.directShape o e)
  instanceShape : r.checkedInstanceShape o id = some (r.instanceShape o e)
  publicShape : r.checkedPublicShape o id = some (r.publicShape o e)
  documentation : r.checkedDocumentation id = some (r.documentation e)
  declarations : r.checkedDeclarations o id = some (r.declarations o e)

theorem WellFormed.checksOut {r : Registry} (h : r.WellFormed) (o : Options) {id : EntityId}
    {e : Entity} (he : r.entity? id = some e) : ChecksOut r o id e where
  extendsBuiltin := h.extendsBuiltinWithin_eq he (h.chainsWithin_size he)
  admitsString := h.admitsStringWithin_eq he (h.chainsWithin_size he)
  baseShape := h.checkedBaseShape_eq he o
  directShape := h.checkedDirectShape_eq he o
  instanceShape := h.checkedInstanceShape_eq he o
  publicShape := h.checkedPublicShape_eq he o
  documentation := h.checkedDocumentation_eq he
  declarations := h.checkedDeclarations_eq he o

theorem WellFormed.checkedListing_eq {r : Registry} (h : r.WellFormed) (o : Options) :
    r.checkedListing o = some (r.listing o) := by
  have hdeclarations : r.idsInOrder.mapM (r.checkedDeclarations o) =
      some (r.entitiesInOrder.map (r.declarations o)) := by
    have hmap : r.inOrder.mapM (fun pair => r.checkedDeclarations o pair.2) =
        some (r.inOrder.map fun pair => r.declarations o pair.1) := by
      apply mapM_eq_some_map
      intro pair hpair
      rcases pair with ⟨e, id⟩
      exact h.checkedDeclarations_eq (mem_inOrder_iff.mp hpair) o
    rw [idsInOrder, entitiesInOrder, List.mapM_map, List.map_map]
    exact hmap
  rw [checkedListing, checkedIdsInOrder_eq, Option.bind_eq_bind, Option.bind_some,
    resolve?_eq_of_lt fun id hid => mem_idsInOrder_iff.mp hid, resolve_idsInOrder, hdeclarations,
    listing, declarationsInOrder, List.flatMap_def]
  rfl

end Registry
end VocabTypes
