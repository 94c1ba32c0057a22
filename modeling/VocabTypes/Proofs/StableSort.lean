import Mathlib.Data.List.Basic
import Mathlib.Data.List.Pairwise
import VocabTypes.Proofs.Order

/-!
# Stable sorting

## What a list sorted by identifiers is determined by

Sorting puts items in the order of their identifiers and leaves items that share one in
the order in which they were.  Together the two facts leave no choice: they say which list
the sorted one is.  So it does not matter whether items are left out before a list is
sorted or afterwards.
-/

namespace VocabTypes
namespace Identifier

variable {α : Type}

/-- Items stand in the order of their identifiers. -/
def SortedOn (key : α → Identifier) (items : List α) : Prop :=
  items.Pairwise fun a b => (compare (key a) (key b)).isLE = true

/-- The items with one identifier, in the order in which they stand. -/
def itemsWith (key : α → Identifier) (id : Identifier) (items : List α) : List α :=
  items.filter fun item => key item = id

variable {key : α → Identifier}

theorem mem_itemsWith_iff {id : Identifier} {items : List α} {item : α} :
    item ∈ itemsWith key id items ↔ item ∈ items ∧ key item = id := by
  rw [itemsWith, List.mem_filter, decide_eq_true_iff]

theorem itemsWith_cons_self (item : α) (items : List α) :
    itemsWith key (key item) (item :: items) = item :: itemsWith key (key item) items :=
  List.filter_cons_of_pos (decide_eq_true rfl)

theorem itemsWith_cons_of_ne {id : Identifier} {item : α} (h : key item ≠ id)
    (items : List α) : itemsWith key id (item :: items) = itemsWith key id items :=
  List.filter_cons_of_neg (by simpa using h)

theorem itemsWith_filter (id : Identifier) (keep : α → Bool) (items : List α) :
    itemsWith key id (items.filter keep) = (itemsWith key id items).filter keep :=
  List.filter_comm _ _ items

/-!
# The two facts
-/

theorem sortedOn_sortOn (key : α → Identifier) (items : List α) :
    SortedOn key (sortOn key items) :=
  @pairwise_mergeSort_cmp α (compareOn key) _ items

/-- Sorting keeps the order of the items with one identifier. -/
theorem itemsWith_sortOn (key : α → Identifier) (id : Identifier) (items : List α) :
    itemsWith key id (sortOn key items) = itemsWith key id items := by
  have hequal : SortedOn key (itemsWith key id items) := by
    apply List.pairwise_of_forall_mem_list
    intro a ha b hb
    rw [(mem_itemsWith_iff.mp ha).2, (mem_itemsWith_iff.mp hb).2]
    exact Std.ReflOrd.isLE_rfl
  have hkept : (itemsWith key id items).Sublist (sortOn key items) :=
    @sublist_mergeSort_cmp α (compareOn key) _ items _ List.filter_sublist hequal
  have hsublist : (itemsWith key id items).Sublist (itemsWith key id (sortOn key items)) := by
    have hfiltered := hkept.filter fun item => decide (key item = id)
    rwa [itemsWith, List.filter_eq_self.mpr fun item hitem => (List.mem_filter.mp hitem).2]
      at hfiltered
  have hlength : (itemsWith key id items).length =
      (itemsWith key id (sortOn key items)).length :=
    ((sortOn_perm key items).filter _).length_eq.symm
  exact (hsublist.eq_of_length hlength).symm

/-!
# The sorted list
-/

/-- Two sorted lists with the same items for each identifier are the same list. -/
theorem SortedOn.eq_of_itemsWith {items others : List α} (hitems : SortedOn key items)
    (hothers : SortedOn key others)
    (h : ∀ id, itemsWith key id items = itemsWith key id others) : items = others := by
  -- The heads have the same identifier, since each of them is the least one of its list.
  induction items generalizing others with
  | nil =>
      cases others with
      | nil => rfl
      | cons other others =>
          have hother := h (key other)
          rw [itemsWith_cons_self] at hother
          cases hother
  | cons item items ih =>
      cases others with
      | nil =>
          have hitem := h (key item)
          rw [itemsWith_cons_self] at hitem
          cases hitem
      | cons other others =>
          rcases List.pairwise_cons.mp hitems with ⟨hleast, hrest⟩
          rcases List.pairwise_cons.mp hothers with ⟨hleastOther, hrestOther⟩
          have hsame : key item = key other := by
            by_contra hne
            have hmem : item ∈ itemsWith key (key item) (other :: others) := by
              rw [← h (key item), itemsWith_cons_self]
              exact List.mem_cons_self
            have hmemOther : other ∈ itemsWith key (key other) (item :: items) := by
              rw [h (key other), itemsWith_cons_self]
              exact List.mem_cons_self
            rw [itemsWith_cons_of_ne (Ne.symm hne)] at hmem
            rw [itemsWith_cons_of_ne hne] at hmemOther
            have hge := hleastOther item (mem_itemsWith_iff.mp hmem).1
            have hle := hleast other (mem_itemsWith_iff.mp hmemOther).1
            exact hne (Std.LawfulEqOrd.eq_of_compare (Std.OrientedCmp.isLE_antisymm hle hge))
          have hheads := h (key item)
          rw [itemsWith_cons_self, hsame, itemsWith_cons_self] at hheads
          rcases List.cons_eq_cons.mp hheads with ⟨rfl, -⟩
          congr 1
          apply ih hrest hrestOther
          intro id
          have htails := h id
          by_cases hid : key item = id
          · subst hid
            rw [itemsWith_cons_self, itemsWith_cons_self] at htails
            exact (List.cons_eq_cons.mp htails).2
          · rwa [itemsWith_cons_of_ne hid, itemsWith_cons_of_ne hid] at htails

theorem eq_sortOn_iff {items sorted : List α} :
    sorted = sortOn key items ↔
      SortedOn key sorted ∧ ∀ id, itemsWith key id sorted = itemsWith key id items := by
  constructor
  · rintro rfl
    exact ⟨sortedOn_sortOn key items, fun id => itemsWith_sortOn key id items⟩
  · intro hfacts
    rcases hfacts with ⟨hsorted, hitems⟩
    apply hsorted.eq_of_itemsWith (sortedOn_sortOn key items)
    intro id
    rw [hitems, itemsWith_sortOn]

/-- Items can be left out of a sorted list, or before it is sorted. -/
theorem filter_sortOn (key : α → Identifier) (keep : α → Bool) (items : List α) :
    (sortOn key items).filter keep = sortOn key (items.filter keep) := by
  rw [eq_sortOn_iff]
  refine ⟨(sortedOn_sortOn key items).sublist List.filter_sublist, ?_⟩
  intro id
  rw [itemsWith_filter, itemsWith_sortOn, itemsWith_filter]

end Identifier
end VocabTypes
