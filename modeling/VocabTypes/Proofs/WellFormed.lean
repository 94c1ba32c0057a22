import VocabTypes.Proofs.Ancestry
import VocabTypes.Proofs.Steps

/-!
# Well-formed registries

## What holds of every reachable registry

The index agrees with the table, links lead to registered entities only, no entity
is above itself, and an entity is a child of another one as often as that one is a
parent of it.  Each step preserves all of this.
-/

namespace VocabTypes

/-- The ids that an entity of some kind points at by being of that kind. -/
def Kind.members : Kind → List EntityId
  | .dataTypeUnion members _ => members
  | _ => []

/-- All ids that an entity points at. -/
def Entity.links (e : Entity) : List EntityId :=
  e.parents ++ e.children ++ e.replacements ++ e.kind.members

namespace Registry

open Relation

def childrenOf (r : Registry) (id : EntityId) : List EntityId :=
  ((r.entity? id).map Entity.children).getD []

/-- The index finds exactly the positions at which an IRI is known. -/
def Indexed (r : Registry) : Prop :=
  ∀ href id, r.find? href = some id ↔ ∃ e, r.entity? id = some e ∧ e.href = href

/-- Links lead to registered entities. -/
def Issued (r : Registry) : Prop :=
  ∀ id e, r.entity? id = some e → ∀ link ∈ e.links, link < r.size

/-- No entity is above itself. -/
def Acyclic (r : Registry) : Prop :=
  ∀ id, ¬ TransGen r.IsParent id id

/-- Children and parents are listed equally often. -/
def Mirrored (r : Registry) : Prop :=
  ∀ parent child, (r.childrenOf parent).count child = (r.parentsOf child).count parent

structure WellFormed (r : Registry) : Prop where
  indexed : r.Indexed
  issued : r.Issued
  acyclic : r.Acyclic
  mirrored : r.Mirrored

theorem mem_entities_iff {r : Registry} {e : Entity} :
    e ∈ r.entities ↔ ∃ id, r.entity? id = some e :=
  List.mem_iff_getElem?

theorem childrenOf_of_entity? {r : Registry} {id : EntityId} {e : Entity}
    (he : r.entity? id = some e) : r.childrenOf id = e.children := by
  simp [childrenOf, he]

section

variable {r : Registry} (h : r.Issued) {id : EntityId} {e : Entity} (he : r.entity? id = some e)

include h he

theorem Issued.parents_lt : ∀ parent ∈ e.parents, parent < r.size := by
  intro parent hparent
  apply h id e he
  simp [Entity.links, hparent]

theorem Issued.children_lt : ∀ child ∈ e.children, child < r.size := by
  intro child hchild
  apply h id e he
  simp [Entity.links, hchild]

theorem Issued.replacements_lt : ∀ target ∈ e.replacements, target < r.size := by
  intro target htarget
  apply h id e he
  simp [Entity.links, htarget]

theorem Issued.members_lt : ∀ member ∈ e.kind.members, member < r.size := by
  intro member hmember
  apply h id e he
  simp [Entity.links, hmember]

end

theorem WellFormed.parent_lt {r : Registry} (h : r.WellFormed) {child parent : EntityId}
    (hparent : r.IsParent child parent) : parent < r.size := by
  rcases (r.lt_size_iff child).mp hparent.child_lt with ⟨e, he⟩
  rw [IsParent, parentsOf_of_entity? he] at hparent
  exact h.issued.parents_lt he parent hparent

/-- Resolving issued ids loses none of them. -/
theorem map_some_resolve {r : Registry} {ids : List EntityId} (hids : ∀ id ∈ ids, id < r.size) :
    (r.resolve ids).map some = ids.map r.entity? := by
  induction ids with
  | nil => rfl
  | cons id ids ih =>
      rcases (r.lt_size_iff id).mp (hids id List.mem_cons_self) with ⟨e, he⟩
      have hrest := ih fun other hother => hids other (List.mem_cons_of_mem id hother)
      rw [resolve, List.filterMap_cons_some he, List.map_cons, List.map_cons, he]
      rw [resolve] at hrest
      rw [hrest]

theorem resolve_ne_nil {r : Registry} {ids : List EntityId} (hids : ∀ id ∈ ids, id < r.size)
    (hne : ids ≠ []) : r.resolve ids ≠ [] := by
  intro hnil
  have hmap := map_some_resolve hids
  rw [hnil, List.map_nil] at hmap
  exact hne (List.map_eq_nil_iff.mp hmap.symm)

/-!
# The empty registry
-/

theorem wellFormed_empty : empty.WellFormed where
  indexed := by
    intro href id
    simp [find?, entity?, empty]
  issued := by
    intro id e he
    cases he
  acyclic := by
    intro id hcycle
    rcases TransGen.head'_iff.mp hcycle with ⟨parent, hparent, _⟩
    cases hparent
  mirrored := by
    intro parent child
    rfl

/-!
# Registration

A new entity has no parents and no children, so the links of the others are what
they were.
-/

theorem entity?_size (r : Registry) : r.entity? r.size = none :=
  List.getElem?_eq_none (Nat.le_refl r.size)

/-- An IRI that is registered is not one that is still free. -/
theorem ne_of_find? {r : Registry} {href free : String} {id : EntityId}
    (hfound : r.find? href = some id) (hfree : r.find? free = none) : href ≠ free := by
  intro hsame
  rw [hsame, hfree] at hfound
  cases hfound

theorem ne_size_of_entity? {r : Registry} {id : EntityId} {e : Entity}
    (he : r.entity? id = some e) : id ≠ r.size :=
  Nat.ne_of_lt ((r.lt_size_iff id).mpr ⟨e, he⟩)

theorem parentsOf_append_bare (r : Registry) (subject : Identifier) (kind : Kind)
    (allowString : Bool) :
    (r.append (.bare subject kind allowString)).parentsOf = r.parentsOf := by
  funext id
  unfold parentsOf
  rw [entity?_append]
  by_cases hlast : id = r.size
  · rw [if_pos hlast, hlast, entity?_size]
    rfl
  · rw [if_neg hlast]

theorem childrenOf_append_bare (r : Registry) (subject : Identifier) (kind : Kind)
    (allowString : Bool) :
    (r.append (.bare subject kind allowString)).childrenOf = r.childrenOf := by
  funext id
  unfold childrenOf
  rw [entity?_append]
  by_cases hlast : id = r.size
  · rw [if_pos hlast, hlast, entity?_size]
    rfl
  · rw [if_neg hlast]

theorem AdmitsKind.members_lt {r : Registry} {kind : Kind} (h : r.AdmitsKind kind) :
    ∀ member ∈ kind.members, member < r.size := by
  intro member hmember
  cases kind with
  | dataTypeUnion members doc =>
      have hscalar := (h members doc rfl).right member hmember
      rw [isScalar, Option.any_eq_true] at hscalar
      rcases hscalar with ⟨e, he, _⟩
      exact (r.lt_size_iff member).mpr ⟨e, he⟩
  | rdfsClass => cases hmember
  | builtin typeName doc => cases hmember
  | booleanEnum trueUrl falseUrl doc => cases hmember

theorem WellFormed.append {r : Registry} (h : r.WellFormed) {subject : Identifier}
    {kind : Kind} {allowString : Bool} (hfresh : r.find? subject.href = none)
    (hkind : r.AdmitsKind kind) :
    (r.append (.bare subject kind allowString)).WellFormed where
  indexed := by
    intro href id
    rw [find?_append, entity?_append, Entity.href_bare]
    by_cases hlast : id = r.size
    · subst hlast
      rw [if_pos rfl]
      by_cases hsame : href = subject.href
      · subst hsame
        simp [Entity.bare, Entity.href]
      · have hne : r.find? href ≠ some r.size := by
          intro hfound
          rcases (h.indexed href r.size).mp hfound with ⟨e, he, _⟩
          rw [entity?_size] at he
          cases he
        rw [if_neg hsame]
        constructor
        · intro hfound
          exact absurd hfound hne
        · intro hlisted
          rcases hlisted with ⟨e, he, rfl⟩
          cases he
          exact absurd rfl hsame
    · rw [if_neg hlast]
      by_cases hsame : href = subject.href
      · subst hsame
        constructor
        · intro hfound
          rw [if_pos rfl] at hfound
          cases hfound
          exact absurd rfl hlast
        · intro hknown
          rw [(h.indexed subject.href id).mpr hknown] at hfresh
          cases hfresh
      · rw [if_neg hsame]
        exact h.indexed href id
  issued := by
    intro id e he link hlink
    rw [entity?_append] at he
    rw [size_append]
    by_cases hlast : id = r.size
    · rw [if_pos hlast] at he
      cases he
      have hmember : link ∈ kind.members := by
        simpa [Entity.links, Entity.bare] using hlink
      exact Nat.lt_succ_of_lt (hkind.members_lt link hmember)
    · rw [if_neg hlast] at he
      exact Nat.lt_succ_of_lt (h.issued id e he link hlink)
  acyclic := by
    intro id
    have hsame : (r.append (.bare subject kind allowString)).IsParent = r.IsParent := by
      unfold IsParent
      rw [parentsOf_append_bare]
    rw [hsame]
    exact h.acyclic id
  mirrored := by
    intro parent child
    rw [childrenOf_append_bare, parentsOf_append_bare]
    exact h.mirrored parent child

/-!
# Rewriting an entity

A rewrite that keeps an entity's IRI keeps the index, and one that keeps its parents
and children keeps the graph.
-/

theorem parentsOf_modify {r : Registry} {id : EntityId} {f : Entity → Entity}
    (hf : ∀ e, (f e).parents = e.parents) : (r.modify id f).parentsOf = r.parentsOf := by
  funext other
  unfold parentsOf
  rw [entity?_modify]
  split
  · cases r.entity? other with
    | none => rfl
    | some e => simp [hf]
  · rfl

theorem childrenOf_modify {r : Registry} {id : EntityId} {f : Entity → Entity}
    (hf : ∀ e, (f e).children = e.children) : (r.modify id f).childrenOf = r.childrenOf := by
  funext other
  unfold childrenOf
  rw [entity?_modify]
  split
  · cases r.entity? other with
    | none => rfl
    | some e => simp [hf]
  · rfl

theorem Indexed.modify {r : Registry} (h : r.Indexed) {id : EntityId} {f : Entity → Entity}
    (hf : ∀ e, (f e).href = e.href) : (r.modify id f).Indexed := by
  intro href other
  rw [find?_modify, h href other, entity?_modify]
  split
  · constructor
    · intro hlisted
      rcases hlisted with ⟨e, he, hhref⟩
      exact ⟨f e, by rw [he]; rfl, by rw [hf, hhref]⟩
    · intro hlisted
      rcases hlisted with ⟨e, he, hhref⟩
      rcases Option.map_eq_some_iff.mp he with ⟨old, hold, rfl⟩
      exact ⟨old, hold, by rw [← hf, hhref]⟩
  · exact Iff.rfl

theorem Issued.modify {r : Registry} (h : r.Issued) {id : EntityId} {f : Entity → Entity}
    (hf : ∀ e, ∀ link ∈ (f e).links, link ∈ e.links ∨ link < r.size) :
    (r.modify id f).Issued := by
  intro other e he link hlink
  rw [entity?_modify] at he
  rw [size_modify]
  by_cases hsame : id = other
  · rw [if_pos hsame] at he
    rcases Option.map_eq_some_iff.mp he with ⟨old, hold, rfl⟩
    rcases hf old link hlink with hmem | hlt
    · exact h other old hold link hmem
    · exact hlt
  · rw [if_neg hsame] at he
    exact h other e he link hlink

theorem WellFormed.modify {r : Registry} (h : r.WellFormed) {id : EntityId}
    {f : Entity → Entity} (hhref : ∀ e, (f e).href = e.href)
    (hparents : ∀ e, (f e).parents = e.parents) (hchildren : ∀ e, (f e).children = e.children)
    (hlinks : ∀ e, ∀ link ∈ (f e).links, link ∈ e.links ∨ link < r.size) :
    (r.modify id f).WellFormed where
  indexed := h.indexed.modify hhref
  issued := h.issued.modify hlinks
  acyclic := by
    intro other
    have hsame : (r.modify id f).IsParent = r.IsParent := by
      unfold IsParent
      rw [parentsOf_modify hparents]
    rw [hsame]
    exact h.acyclic other
  mirrored := by
    intro parent child
    rw [childrenOf_modify hchildren, parentsOf_modify hparents]
    exact h.mirrored parent child

/-!
# A new edge

An edge from a node to another one closes a cycle only if the first can be reached
from the second before.
-/

theorem transGen_of_added_edge {α : Type} {old new : α → α → Prop} {a b : α}
    (hnew : ∀ x y, new x y → old x y ∨ (x = a ∧ y = b)) {x y : α} (h : TransGen new x y) :
    TransGen old x y ∨ (ReflTransGen old x a ∧ ReflTransGen old b y) := by
  induction h with
  | single hstep =>
      rcases hnew _ _ hstep with hold | ⟨rfl, rfl⟩
      · exact Or.inl (TransGen.single hold)
      · exact Or.inr ⟨ReflTransGen.refl, ReflTransGen.refl⟩
  | tail _ hstep ih =>
      rcases hnew _ _ hstep with hold | ⟨rfl, rfl⟩
      · rcases ih with hpath | ⟨hto, hfrom⟩
        · exact Or.inl (hpath.tail hold)
        · exact Or.inr ⟨hto, hfrom.tail hold⟩
      · rcases ih with hpath | ⟨hto, _⟩
        · exact Or.inr ⟨hpath.to_reflTransGen, ReflTransGen.refl⟩
        · exact Or.inr ⟨hto, ReflTransGen.refl⟩

theorem not_transGen_of_added_edge {α : Type} {old new : α → α → Prop} {a b : α}
    (hnew : ∀ x y, new x y → old x y ∨ (x = a ∧ y = b))
    (hold : ∀ x, ¬ TransGen old x x) (hopen : ¬ ReflTransGen old b a) (x : α) :
    ¬ TransGen new x x := by
  intro hcycle
  rcases transGen_of_added_edge hnew hcycle with hpath | ⟨hto, hfrom⟩
  · exact hold x hpath
  · exact hopen (hfrom.trans hto)

theorem parentsOf_link {r : Registry} {child parent : EntityId} {e : Entity}
    (he : r.entity? child = some e) (id : EntityId) :
    (r.link child parent).parentsOf id =
      if child = id then r.parentsOf id ++ [parent] else r.parentsOf id := by
  have hchild : (r.link child parent).parentsOf =
      (r.modify child fun e => { e with parents := e.parents ++ [parent] }).parentsOf :=
    parentsOf_modify fun _ => rfl
  rw [hchild]
  unfold parentsOf
  rw [entity?_modify]
  by_cases hsame : child = id
  · subst hsame
    simp [he]
  · simp [hsame]

theorem childrenOf_link {r : Registry} {child parent : EntityId} {e : Entity}
    (he : r.entity? parent = some e) (id : EntityId) :
    (r.link child parent).childrenOf id =
      if parent = id then r.childrenOf id ++ [child] else r.childrenOf id := by
  rw [link]
  unfold childrenOf
  rw [entity?_modify, entity?_modify]
  by_cases hsame : parent = id
  · subst hsame
    by_cases hself : child = parent
    · simp [hself, he]
    · simp [hself, he]
  · by_cases hother : child = id
    · subst hother
      cases r.entity? child with
      | none => simp [hsame]
      | some old => simp [hsame]
    · simp [hsame, hother]

theorem isParent_link {r : Registry} {child parent : EntityId} {e : Entity}
    (he : r.entity? child = some e) (x y : EntityId)
    (h : (r.link child parent).IsParent x y) :
    r.IsParent x y ∨ (x = child ∧ y = parent) := by
  rw [IsParent, parentsOf_link he] at h
  by_cases hsame : child = x
  · rw [if_pos hsame] at h
    rcases List.mem_append.mp h with hold | hlast
    · exact Or.inl hold
    · exact Or.inr ⟨hsame.symm, List.mem_singleton.mp hlast⟩
  · rw [if_neg hsame] at h
    exact Or.inl h

theorem WellFormed.not_reaches {r : Registry} (h : r.WellFormed) {child parent : EntityId}
    {e : Entity} (he : r.entity? child = some e) (hopen : r.closesCycle e.href parent = false) :
    ¬ ReflTransGen r.IsParent parent child := by
  intro hpath
  have hself : r.find? e.href = some child := (h.indexed e.href child).mpr ⟨e, he, rfl⟩
  rw [closesCycle, hself, Option.any_some, subsumes_iff.mpr hpath] at hopen
  cases hopen

theorem WellFormed.lt_of_find? {r : Registry} (h : r.WellFormed) {href : String}
    {id : EntityId} (hfound : r.find? href = some id) : id < r.size := by
  rcases (h.indexed href id).mp hfound with ⟨e, he, _⟩
  exact (r.lt_size_iff id).mpr ⟨e, he⟩

theorem WellFormed.link {r : Registry} (h : r.WellFormed) {child parent : EntityId}
    {e : Entity} {href : String} (he : r.entity? child = some e)
    (hfound : r.find? href = some parent) (hopen : r.closesCycle e.href parent = false) :
    (r.link child parent).WellFormed where
  indexed := by
    apply Indexed.modify
    · exact h.indexed.modify fun _ => rfl
    · intro old
      rfl
  issued := by
    apply Issued.modify
    · apply h.issued.modify
      intro old link hlink
      have hparent : parent < r.size := h.lt_of_find? hfound
      grind [Entity.links]
    · intro old link hlink
      have hchild : child < r.size := (r.lt_size_iff child).mpr ⟨e, he⟩
      rw [size_modify]
      grind [Entity.links]
  acyclic := by
    intro id
    exact not_transGen_of_added_edge (isParent_link he) h.acyclic (h.not_reaches he hopen) id
  mirrored := by
    intro p c
    rcases (h.indexed href parent).mp hfound with ⟨above, habove, _⟩
    rw [childrenOf_link habove, parentsOf_link he]
    have hold := h.mirrored p c
    by_cases hparent : parent = p
    · by_cases hchild : child = c
      · simp [hparent, hchild, hold]
      · simp [hparent, hchild, hold]
    · by_cases hchild : child = c
      · simp [hparent, hchild, hold]
      · simp [hparent, hchild, hold]

/-!
# All steps
-/

theorem WellFormed.step {r s : Registry} (h : r.WellFormed) (hstep : Step r s) :
    s.WellFormed := by
  cases hstep with
  | insert hfresh hkind => exact h.append hfresh hkind
  | comment he =>
      apply h.modify
      · exact fun _ => rfl
      · exact fun _ => rfl
      · exact fun _ => rfl
      · exact fun _ _ => Or.inl
  | link he hfound hopen => exact h.link he hfound hopen
  | replacement he hfound =>
      apply h.modify
      · exact fun _ => rfl
      · exact fun _ => rfl
      · exact fun _ => rfl
      · intro old link hlink
        have htarget := h.lt_of_find? hfound
        grind [Entity.links]
  | members he =>
      apply h.modify
      · exact fun _ => rfl
      · exact fun _ => rfl
      · exact fun _ => rfl
      · exact fun _ _ => Or.inl
  | record => exact ⟨h.indexed, h.issued, h.acyclic, h.mirrored⟩

theorem WellFormed.steps {r s : Registry} (h : r.WellFormed) (hsteps : Steps r s) :
    s.WellFormed := by
  induction hsteps with
  | refl => exact h
  | tail _ hstep ih => exact ih.step hstep

theorem Reachable.wellFormed {r : Registry} (hr : r.Reachable) : r.WellFormed :=
  hr.induction wellFormed_empty fun _ _ h hstep => h.step hstep

end Registry
end VocabTypes
