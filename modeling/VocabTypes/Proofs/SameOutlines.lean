import VocabTypes.Listing
import VocabTypes.Proofs.Order
import VocabTypes.Proofs.Outline

/-!
# Listings and outlines

## What the generated declarations depend on

Registries that give every IRI the same outline generate the same declarations: the
links of an entity are read through the outlines, its children are told by the
parents of the others, and lists whose order is not told by an outline are sorted
without ties.
-/

namespace VocabTypes

namespace Kind

@[simp] theorem isBuiltin_unlinked (kind : Kind) : kind.unlinked.isBuiltin = kind.isBuiltin := by
  cases kind <;> rfl

@[simp] theorem rank_unlinked (kind : Kind) : kind.unlinked.rank = kind.rank := by
  cases kind <;> rfl

end Kind

namespace Registry

open Relation

/-- Two registries that say the same about every IRI. -/
def SameOutlines (r s : Registry) : Prop :=
  ∀ href, r.outline? href = s.outline? href

/-!
# Links read through outlines
-/

theorem entity?_of_mem_resolve {r : Registry} {ids : List EntityId} {e : Entity}
    (he : e ∈ r.resolve ids) : ∃ id, id ∈ ids ∧ r.entity? id = some e :=
  List.mem_filterMap.mp he

theorem Indexed.map_outline_resolve {r : Registry} (h : r.Indexed) (ids : List EntityId) :
    (r.resolve ids).map r.outline = (r.hrefs ids).filterMap r.outline? := by
  rw [hrefs, List.filterMap_map, ← List.filterMap_eq_map]
  apply List.filterMap_congr
  intro e he
  rcases entity?_of_mem_resolve he with ⟨id, _, hentity⟩
  exact (h.outline?_href hentity).symm

theorem SameOutlines.map_outline_resolve {r s : Registry} (h : SameOutlines r s)
    (hr : r.Indexed) (hs : s.Indexed) {ids others : List EntityId}
    (hhrefs : r.hrefs ids = s.hrefs others) :
    (r.resolve ids).map r.outline = (s.resolve others).map s.outline := by
  have hsame : r.outline? = s.outline? := funext h
  rw [hr.map_outline_resolve, hs.map_outline_resolve, hhrefs, hsame]

/-- What depends on the content of linked entities only is told by the IRIs of the links. -/
theorem SameOutlines.map_resolve {β : Type} {r s : Registry} (h : SameOutlines r s)
    (hr : r.Indexed) (hs : s.Indexed) {ids others : List EntityId}
    (hhrefs : r.hrefs ids = s.hrefs others) {f : Entity → β}
    (hf : ∀ e, f e = f e.content) : (r.resolve ids).map f = (s.resolve others).map f := by
  have houtlines := congrArg (List.map fun o => f o.content)
    (h.map_outline_resolve hr hs hhrefs)
  rw [List.map_map, List.map_map] at houtlines
  have hread : ∀ t : Registry, ((fun o : Outline => f o.content) ∘ t.outline) = f := by
    intro t
    funext e
    exact (hf e).symm
  rw [hread, hread] at houtlines
  exact houtlines

theorem length_hrefs {r : Registry} {ids : List EntityId} (hids : ∀ id ∈ ids, id < r.size) :
    (r.hrefs ids).length = ids.length := by
  induction ids with
  | nil => rfl
  | cons id ids ih =>
      rcases (r.lt_size_iff id).mp (hids id List.mem_cons_self) with ⟨e, he⟩
      have hrest := ih fun other hother => hids other (List.mem_cons_of_mem id hother)
      unfold hrefs resolve at hrest ⊢
      rw [List.filterMap_cons, he]
      simpa using hrest

theorem isEmpty_hrefs {r : Registry} {ids : List EntityId} (hids : ∀ id ∈ ids, id < r.size) :
    (r.hrefs ids).isEmpty = ids.isEmpty := by
  rw [Bool.eq_iff_iff, List.isEmpty_iff_length_eq_zero, List.isEmpty_iff_length_eq_zero,
    length_hrefs hids]

/-!
# Ancestors read through outlines
-/

/-- One step to a parent, between IRIs. -/
def NamesParent (r : Registry) (child parent : String) : Prop :=
  ∃ o, r.outline? child = some o ∧ parent ∈ o.parents

theorem SameOutlines.namesParent_eq {r s : Registry} (h : SameOutlines r s) :
    r.NamesParent = s.NamesParent := by
  unfold NamesParent
  rw [funext h]

theorem Indexed.namesParent {r : Registry} (h : r.Indexed) {child parent : EntityId}
    {e above : Entity} (he : r.entity? child = some e) (habove : r.entity? parent = some above)
    (hstep : r.IsParent child parent) : r.NamesParent e.href above.href := by
  refine ⟨r.outline e, h.outline?_href he, ?_⟩
  rw [IsParent, parentsOf_of_entity? he] at hstep
  exact List.mem_map_of_mem (List.mem_filterMap.mpr ⟨parent, hstep, habove⟩)

theorem Indexed.isParent_of_names {r : Registry} (h : r.Indexed) {child : EntityId}
    {e : Entity} (he : r.entity? child = some e) {href : String}
    (hstep : r.NamesParent e.href href) :
    ∃ parent above, r.IsParent child parent ∧ r.entity? parent = some above ∧
      above.href = href := by
  rcases hstep with ⟨o, ho, hmem⟩
  rw [h.outline?_href he] at ho
  cases ho
  rcases List.mem_map.mp hmem with ⟨above, habove, hhref⟩
  rcases entity?_of_mem_resolve habove with ⟨parent, hparent, hentity⟩
  refine ⟨parent, above, ?_, hentity, hhref⟩
  rw [IsParent, parentsOf_of_entity? he]
  exact hparent

theorem Indexed.reaches_names {r : Registry} (h : r.Indexed) {id top : EntityId}
    {e above : Entity} (he : r.entity? id = some e) (habove : r.entity? top = some above)
    (hpath : ReflTransGen r.IsParent id top) :
    ReflTransGen r.NamesParent e.href above.href := by
  induction hpath generalizing above with
  | refl =>
      rw [he] at habove
      cases habove
      exact ReflTransGen.refl
  | tail _ hstep ih =>
      rcases (r.lt_size_iff _).mp hstep.child_lt with ⟨between, hbetween⟩
      exact (ih hbetween).tail (h.namesParent hbetween habove hstep)

theorem Indexed.reaches_of_names {r : Registry} (h : r.Indexed) {id : EntityId} {e : Entity}
    (he : r.entity? id = some e) {href : String}
    (hpath : ReflTransGen r.NamesParent e.href href) :
    ∃ top above, ReflTransGen r.IsParent id top ∧ r.entity? top = some above ∧
      above.href = href := by
  induction hpath with
  | refl => exact ⟨id, e, ReflTransGen.refl, he, rfl⟩
  | tail _ hstep ih =>
      rcases ih with ⟨between, mid, hreach, hmid, hhref⟩
      rw [← hhref] at hstep
      rcases h.isParent_of_names hmid hstep with ⟨top, above, hparent, habove, hlast⟩
      exact ⟨top, above, hreach.tail hparent, habove, hlast⟩

theorem Indexed.extendsBuiltin_iff_names {r : Registry} (h : r.Indexed) {id : EntityId}
    {e : Entity} (he : r.entity? id = some e) :
    r.extendsBuiltin e = true ↔
      ∃ href o, TransGen r.NamesParent e.href href ∧ r.outline? href = some o ∧
        o.content.kind.isBuiltin = true := by
  rw [extendsBuiltin_iff he]
  constructor
  · intro hbuiltin
    rcases hbuiltin with ⟨top, above, hpath, habove, hkind⟩
    rcases TransGen.tail'_iff.mp hpath with ⟨between, hreach, hlast⟩
    rcases (r.lt_size_iff between).mp hlast.child_lt with ⟨mid, hmid⟩
    refine ⟨above.href, r.outline above, ?_, h.outline?_href habove, ?_⟩
    · exact TransGen.tail' (h.reaches_names he hmid hreach) (h.namesParent hmid habove hlast)
    · rw [outline, Entity.content, Kind.isBuiltin_unlinked]
      exact hkind
  · intro hbuiltin
    rcases hbuiltin with ⟨href, o, hpath, ho, hkind⟩
    rcases TransGen.tail'_iff.mp hpath with ⟨between, hreach, hlast⟩
    rcases h.reaches_of_names he hreach with ⟨position, mid, hreach, hmid, hhref⟩
    rw [← hhref] at hlast
    rcases h.isParent_of_names hmid hlast with ⟨top, above, hparent, habove, htop⟩
    rw [← htop, h.outline?_href habove] at ho
    cases ho
    rw [outline, Entity.content, Kind.isBuiltin_unlinked] at hkind
    exact ⟨top, above, TransGen.tail' hreach hparent, habove, hkind⟩

theorem Indexed.admitsString_iff_names {r : Registry} (h : r.Indexed) {id : EntityId}
    {e : Entity} (he : r.entity? id = some e) :
    r.admitsString e = true ↔
      ∃ href o, ReflTransGen r.NamesParent e.href href ∧ r.outline? href = some o ∧
        o.content.allowString = true := by
  rw [admitsString_iff he]
  constructor
  · intro hallow
    rcases hallow with ⟨top, above, hpath, habove, hflag⟩
    exact ⟨above.href, r.outline above, h.reaches_names he habove hpath,
      h.outline?_href habove, hflag⟩
  · intro hallow
    rcases hallow with ⟨href, o, hpath, ho, hflag⟩
    rcases h.reaches_of_names he hpath with ⟨top, above, hreach, habove, hhref⟩
    rw [← hhref, h.outline?_href habove] at ho
    cases ho
    exact ⟨top, above, hreach, habove, hflag⟩

/-!
# Children read through outlines

How often an IRI is that of a child is told by the parents in its own outline.
-/

theorem Indexed.count_hrefs {r : Registry} (h : r.Indexed) {id : EntityId} {e : Entity}
    (he : r.entity? id = some e) {ids : List EntityId} (hids : ∀ id ∈ ids, id < r.size) :
    (r.hrefs ids).count e.href = ids.count id := by
  induction ids with
  | nil => rfl
  | cons first ids ih =>
      rcases (r.lt_size_iff first).mp (hids first List.mem_cons_self) with ⟨known, hknown⟩
      have hrest := ih fun other hother => hids other (List.mem_cons_of_mem first hother)
      have hhead : (known.href == e.href) = (first == id) := by
        rw [Bool.eq_iff_iff, beq_iff_eq, beq_iff_eq]
        constructor
        · intro hsame
          have hfirst := h.find?_href hknown
          rw [hsame, h.find?_href he] at hfirst
          cases hfirst
          rfl
        · intro hsame
          subst hsame
          rw [he] at hknown
          cases hknown
          rfl
      have hcons : r.hrefs (first :: ids) = known.href :: r.hrefs ids := by
        simp [hrefs, resolve, hknown]
      rw [hcons, List.count_cons, List.count_cons, hrest, hhead]

theorem count_hrefs_eq_zero {r : Registry} {href : String} (h : r.entityOf? href = none)
    (hindexed : r.Indexed) (ids : List EntityId) : (r.hrefs ids).count href = 0 := by
  apply List.count_eq_zero_of_not_mem
  intro hmem
  rcases List.mem_map.mp hmem with ⟨e, he, hhref⟩
  rcases entity?_of_mem_resolve he with ⟨id, _, hentity⟩
  rw [← hhref, hindexed.entityOf?_href hentity] at h
  cases h

theorem WellFormed.count_children {r : Registry} (h : r.WellFormed) {id : EntityId}
    {e : Entity} (he : r.entity? id = some e) (href : String) :
    (r.hrefs e.children).count href =
      ((r.outline? href).map fun o => o.parents.count e.href).getD 0 := by
  cases hchild : r.entityOf? href with
  | none =>
      rw [count_hrefs_eq_zero hchild h.indexed, outline?, hchild]
      rfl
  | some child =>
      rcases h.indexed.entityOf?_eq_some_iff.mp hchild with ⟨position, hposition, hhref⟩
      have hmirrored := h.mirrored id position
      rw [childrenOf_of_entity? he, parentsOf_of_entity? hposition] at hmirrored
      rw [← hhref, h.indexed.count_hrefs hposition (h.issued.children_lt he), hmirrored,
        h.indexed.outline?_href hposition, Option.map_some, Option.getD_some, outline,
        h.indexed.count_hrefs he (h.issued.parents_lt hposition)]

end Registry
end VocabTypes
