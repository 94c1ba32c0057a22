import VocabTypes.Proofs.Search

/-!
# Ancestors as reachable entities

## What the search along parents answers

The search along parents decides whether one entity is above another, and the two
properties that an entity inherits are those that hold somewhere above it.  None of
this needs the parents to be free of cycles.
-/

namespace VocabTypes
namespace Registry

open Relation

/-- One step from an entity to a parent of it. -/
def IsParent (r : Registry) (child parent : EntityId) : Prop :=
  parent ∈ r.parentsOf child

/-!
# Parents of a position
-/

theorem parentsOf_of_entity? {r : Registry} {id : EntityId} {e : Entity}
    (he : r.entity? id = some e) : r.parentsOf id = e.parents := by
  simp [parentsOf, he]

theorem parentsOf_eq_nil {r : Registry} {id : EntityId} (h : r.size ≤ id) :
    r.parentsOf id = [] := by
  have hnone : r.entity? id = none := List.getElem?_eq_none h
  simp [parentsOf, hnone]

theorem IsParent.child_lt {r : Registry} {child parent : EntityId}
    (h : r.IsParent child parent) : child < r.size := by
  apply Nat.lt_of_not_le
  intro hle
  rw [IsParent, parentsOf_eq_nil hle] at h
  cases h

theorem mem_unseen_of_parent (r : Registry) (child parent : EntityId)
    (h : parent ∈ r.parentsOf child) : child ∈ List.range r.size :=
  List.mem_range.mpr (IsParent.child_lt h)

/-!
# The answers of the search
-/

theorem subsumes_iff {r : Registry} {ancestor id : EntityId} :
    r.subsumes ancestor id = true ↔ ReflTransGen r.IsParent id ancestor := by
  unfold subsumes climb
  rw [decide_eq_true_iff, Search.mem_visits_goal_iff r.mem_unseen_of_parent]
  constructor
  · intro hreached
    rcases hreached with ⟨start, hstart, hpath⟩
    rw [List.mem_singleton.mp hstart] at hpath
    exact hpath
  · intro hpath
    exact ⟨id, List.mem_singleton_self id, hpath⟩

theorem mem_strictAncestors_iff {r : Registry} {id : EntityId} {e ancestor : Entity}
    (he : r.entity? id = some e) :
    ancestor ∈ r.strictAncestors e ↔
      ∃ above, TransGen r.IsParent id above ∧ r.entity? above = some ancestor := by
  unfold strictAncestors resolve climb
  rw [List.mem_filterMap]
  constructor
  · intro hvisited
    rcases hvisited with ⟨above, habove, hentity⟩
    rw [Search.mem_visits_iff r.mem_unseen_of_parent] at habove
    rcases habove with ⟨parent, hparent, hpath⟩
    rw [← parentsOf_of_entity? he] at hparent
    exact ⟨above, TransGen.head' hparent hpath, hentity⟩
  · intro hreached
    rcases hreached with ⟨above, hpath, hentity⟩
    refine ⟨above, ?_, hentity⟩
    rw [Search.mem_visits_iff r.mem_unseen_of_parent]
    rcases TransGen.head'_iff.mp hpath with ⟨parent, hparent, hrest⟩
    rw [IsParent, parentsOf_of_entity? he] at hparent
    exact ⟨parent, hparent, hrest⟩

theorem extendsBuiltin_iff {r : Registry} {id : EntityId} {e : Entity}
    (he : r.entity? id = some e) :
    r.extendsBuiltin e = true ↔
      ∃ above ancestor, TransGen r.IsParent id above ∧ r.entity? above = some ancestor ∧
        ancestor.kind.isBuiltin = true := by
  unfold extendsBuiltin
  rw [List.any_eq_true]
  constructor
  · intro hvisited
    rcases hvisited with ⟨ancestor, hmem, hbuiltin⟩
    rcases (mem_strictAncestors_iff he).mp hmem with ⟨above, hpath, hentity⟩
    exact ⟨above, ancestor, hpath, hentity, hbuiltin⟩
  · intro hreached
    rcases hreached with ⟨above, ancestor, hpath, hentity, hbuiltin⟩
    exact ⟨ancestor, (mem_strictAncestors_iff he).mpr ⟨above, hpath, hentity⟩, hbuiltin⟩

theorem admitsString_iff {r : Registry} {id : EntityId} {e : Entity}
    (he : r.entity? id = some e) :
    r.admitsString e = true ↔
      ∃ above ancestor, ReflTransGen r.IsParent id above ∧ r.entity? above = some ancestor ∧
        ancestor.allowString = true := by
  unfold admitsString
  rw [Bool.or_eq_true, List.any_eq_true]
  constructor
  · intro hallowed
    rcases hallowed with hown | ⟨ancestor, hmem, hallow⟩
    · exact ⟨id, e, ReflTransGen.refl, he, hown⟩
    · rcases (mem_strictAncestors_iff he).mp hmem with ⟨above, hpath, hentity⟩
      exact ⟨above, ancestor, hpath.to_reflTransGen, hentity, hallow⟩
  · intro hreached
    rcases hreached with ⟨above, ancestor, hpath, hentity, hallow⟩
    rcases reflTransGen_iff_eq_or_transGen.mp hpath with rfl | hstrict
    · rw [he] at hentity
      cases hentity
      exact Or.inl hallow
    · exact Or.inr
        ⟨ancestor, (mem_strictAncestors_iff he).mpr ⟨above, hstrict, hentity⟩, hallow⟩

/-!
# One step up

What an entity inherits is what its parents have or inherit.
-/

/-- Whether a test holds of the entity at a position; it fails where there is none. -/
def holdsAt (r : Registry) (test : Entity → Bool) (id : EntityId) : Bool :=
  (r.entity? id).any test

theorem holdsAt_iff {r : Registry} {test : Entity → Bool} {id : EntityId} :
    r.holdsAt test id = true ↔ ∃ e, r.entity? id = some e ∧ test e = true := by
  unfold holdsAt
  rw [Option.any_eq_true]

theorem extendsBuiltin_eq_any {r : Registry} {id : EntityId} {e : Entity}
    (he : r.entity? id = some e) :
    r.extendsBuiltin e =
      e.parents.any (r.holdsAt fun parent => parent.kind.isBuiltin || r.extendsBuiltin parent) := by
  rw [Bool.eq_iff_iff, extendsBuiltin_iff he, List.any_eq_true, ← parentsOf_of_entity? he]
  simp only [holdsAt_iff, Bool.or_eq_true]
  constructor
  · intro hreached
    rcases hreached with ⟨above, ancestor, hpath, hancestor, hbuiltin⟩
    rcases TransGen.head'_iff.mp hpath with ⟨parent, hparent, hrest⟩
    refine ⟨parent, hparent, ?_⟩
    rcases reflTransGen_iff_eq_or_transGen.mp hrest with rfl | hstrict
    · exact ⟨ancestor, hancestor, Or.inl hbuiltin⟩
    · rcases TransGen.head'_iff.mp hstrict with ⟨_, hnext, _⟩
      rcases (r.lt_size_iff parent).mp (IsParent.child_lt hnext) with ⟨p, hp⟩
      refine ⟨p, hp, Or.inr ?_⟩
      exact (extendsBuiltin_iff hp).mpr ⟨above, ancestor, hstrict, hancestor, hbuiltin⟩
  · intro hinherited
    rcases hinherited with ⟨parent, hparent, p, hp, hbuiltin | hextends⟩
    · exact ⟨parent, p, TransGen.single hparent, hp, hbuiltin⟩
    · rcases (extendsBuiltin_iff hp).mp hextends with
        ⟨above, ancestor, hpath, hancestor, hbuiltin⟩
      exact ⟨above, ancestor, TransGen.head hparent hpath, hancestor, hbuiltin⟩

theorem admitsString_eq_any {r : Registry} {id : EntityId} {e : Entity}
    (he : r.entity? id = some e) :
    r.admitsString e = (e.allowString || e.parents.any (r.holdsAt r.admitsString)) := by
  rw [Bool.eq_iff_iff, admitsString_iff he, Bool.or_eq_true, List.any_eq_true,
    ← parentsOf_of_entity? he]
  simp only [holdsAt_iff]
  constructor
  · intro hreached
    rcases hreached with ⟨above, ancestor, hpath, hancestor, hallow⟩
    rcases ReflTransGen.cases_head hpath with rfl | ⟨parent, hparent, hrest⟩
    · rw [he] at hancestor
      cases hancestor
      exact Or.inl hallow
    · have hissued : ∃ p, r.entity? parent = some p := by
        rcases ReflTransGen.cases_head hrest with rfl | ⟨_, hnext, _⟩
        · exact ⟨ancestor, hancestor⟩
        · exact (r.lt_size_iff parent).mp (IsParent.child_lt hnext)
      rcases hissued with ⟨p, hp⟩
      refine Or.inr ⟨parent, hparent, p, hp, ?_⟩
      exact (admitsString_iff hp).mpr ⟨above, ancestor, hrest, hancestor, hallow⟩
  · intro hallowed
    rcases hallowed with hown | ⟨parent, hparent, p, hp, hadmits⟩
    · exact ⟨id, e, ReflTransGen.refl, he, hown⟩
    · rcases (admitsString_iff hp).mp hadmits with ⟨above, ancestor, hpath, hancestor, hallow⟩
      exact ⟨above, ancestor, ReflTransGen.head hparent hpath, hancestor, hallow⟩

end Registry
end VocabTypes
