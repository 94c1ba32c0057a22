import VocabTypes.Registry.Basic

/-!
# Sorted lists

## When sorting forgets the order of its input

Identifiers and entities are compared part by part, which gives total orders.  A
sorted list depends on the members of its input only, provided that members which
compare equal are equal.
-/

namespace VocabTypes

open Std

instance : TransOrd Identifier :=
  inferInstanceAs (TransCmp (compareLex (compareOn Identifier.name) (compareOn Identifier.href)))

instance : LawfulEqOrd Identifier where
  eq_of_compare := by
    intro a b h
    rcases compareLex_eq_eq.mp h with ⟨hname, hhref⟩
    cases a
    cases b
    rw [Identifier.mk.injEq]
    exact ⟨LawfulEqOrd.eq_of_compare hname, LawfulEqOrd.eq_of_compare hhref⟩

instance : TransOrd Entity :=
  inferInstanceAs
    (TransCmp (compareLex (compareOn fun e : Entity => e.kind.rank) (compareOn Entity.subject)))

theorem Entity.subject_eq_of_compare {a b : Entity} (h : compare a b = .eq) :
    a.subject = b.subject :=
  LawfulEqOrd.eq_of_compare (compareLex_eq_eq.mp h).right

/-!
# Sorting by a comparison
-/

section

variable {α : Type} {cmp : α → α → Ordering} [TransCmp cmp]

theorem isLE_total (a b : α) : ((cmp a b).isLE || (cmp b a).isLE) = true := by
  cases hab : (cmp a b).isLE with
  | true => rfl
  | false =>
      have hgt : ¬ (cmp a b).isLE = true := by
        rw [hab]
        exact Bool.false_ne_true
      have hlt : cmp b a = .lt := OrientedCmp.lt_of_not_isLE hgt
      rw [hlt]
      rfl

theorem pairwise_mergeSort_cmp (items : List α) :
    (items.mergeSort fun a b => (cmp a b).isLE).Pairwise fun a b => (cmp a b).isLE = true := by
  apply List.pairwise_mergeSort
  · intro a b c hab hbc
    exact TransCmp.isLE_trans hab hbc
  · intro a b
    exact isLE_total a b

/-- Items that stand in order stay in this order when the list that they are from is sorted. -/
theorem sublist_mergeSort_cmp {items chosen : List α} (hchosen : chosen.Sublist items)
    (hsorted : chosen.Pairwise fun a b => (cmp a b).isLE = true) :
    chosen.Sublist (items.mergeSort fun a b => (cmp a b).isLE) := by
  apply List.sublist_mergeSort _ _ hsorted hchosen
  · intro a b c hab hbc
    exact TransCmp.isLE_trans hab hbc
  · intro a b
    exact isLE_total a b

theorem mergeSort_eq_of_perm {items others : List α} (hperm : items.Perm others)
    (hequal : ∀ a ∈ items, ∀ b ∈ others, cmp a b = .eq → a = b) :
    (items.mergeSort fun a b => (cmp a b).isLE) =
      others.mergeSort fun a b => (cmp a b).isLE := by
  apply List.Perm.eq_of_pairwise _ (pairwise_mergeSort_cmp items) (pairwise_mergeSort_cmp others)
  · exact ((List.mergeSort_perm items _).trans hperm).trans (List.mergeSort_perm others _).symm
  · intro a b ha hb hab hba
    apply hequal a (List.mem_mergeSort.mp ha) b (List.mem_mergeSort.mp hb)
    exact OrientedCmp.isLE_antisymm hab hba

end

/-!
# The two orders in use
-/

/-- The keys of sorted items depend on the keys of the items only, whatever their order. -/
theorem Identifier.map_sortOn_eq_of_perm {α β : Type} {key : α → Identifier}
    {otherKey : β → Identifier} {items : List α} {others : List β}
    (hperm : (items.map key).Perm (others.map otherKey)) :
    (sortOn key items).map key = (sortOn otherKey others).map otherKey := by
  have hkeys : (sortOn key items).map key =
      (items.map key).mergeSort fun a b => (compare a b).isLE :=
    List.map_mergeSort fun _ _ _ _ => rfl
  have hotherKeys : (sortOn otherKey others).map otherKey =
      (others.map otherKey).mergeSort fun a b => (compare a b).isLE :=
    List.map_mergeSort fun _ _ _ _ => rfl
  rw [hkeys, hotherKeys]
  apply mergeSort_eq_of_perm hperm
  intro a _ b _ h
  exact LawfulEqOrd.eq_of_compare h

theorem Registry.entitiesInOrder_eq (r : Registry) :
    r.entitiesInOrder = r.entities.mergeSort fun a b => (compare a b).isLE := by
  have hsorted : r.entitiesInOrder =
      (r.entities.zipIdx.map Prod.fst).mergeSort fun a b => (compare a b).isLE :=
    List.map_mergeSort fun _ _ _ _ => rfl
  rw [hsorted, List.zipIdx_map_fst]

theorem Registry.entitiesInOrder_perm (r : Registry) : r.entitiesInOrder.Perm r.entities := by
  rw [entitiesInOrder_eq]
  exact List.mergeSort_perm r.entities _

theorem Registry.mem_entitiesInOrder_iff {r : Registry} {e : Entity} :
    e ∈ r.entitiesInOrder ↔ e ∈ r.entities :=
  r.entitiesInOrder_perm.mem_iff

end VocabTypes
