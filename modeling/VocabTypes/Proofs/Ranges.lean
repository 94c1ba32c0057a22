import Mathlib.Data.Finset.Card
import VocabTypes.Proofs.GlobalOrder
import VocabTypes.Proofs.References
import VocabTypes.Proofs.StableSort

/-!
# Ranges of properties

## A set of ranges and its one order

The ranges of a property are sorted, and then repetitions that stand side by side are erased.
As identifiers are ordered totally and those that compare equal are equal, this erases every
repetition, and what is left is the one list of the ranges in strict order.  So a field
depends on the set of the ranges of its property only.
-/

namespace VocabTypes

namespace Identifier

theorem precedes_of_isLE {a b : Identifier} (hle : (compare a b).isLE = true) (hne : a ≠ b) :
    a.Precedes b := by
  rcases Ordering.isLE_iff_eq_lt_or_eq_eq.mp hle with hlt | hequal
  · exact compare_eq_lt_iff.mp hlt
  · exact absurd (Std.LawfulEqOrd.eq_of_compare hequal) hne

/-- A sorted list without repetitions side by side is in strict order. -/
theorem pairwise_eraseReps {ids : List Identifier} (h : SortedOn (fun id => id) ids) :
    ids.eraseReps.Pairwise Precedes := by
  induction ids with
  | nil => exact List.Pairwise.nil
  | cons first ids ih =>
      rcases List.pairwise_cons.mp h with ⟨hleast, hrest⟩
      cases ids with
      | nil => exact List.pairwise_singleton Precedes first
      | cons second ids =>
          by_cases hsame : first = second
          · subst hsame
            rw [eraseReps_cons_cons, if_pos (beq_self_eq_true first)]
            exact ih hrest
          · rw [eraseReps_cons_cons, if_neg (by simpa using hsame), List.pairwise_cons]
            refine ⟨?_, ih hrest⟩
            intro id hid
            -- The first is smaller than the second, which is the least of the others.
            have hsecond := compare_eq_lt_iff.mpr
              (precedes_of_isLE (hleast second List.mem_cons_self) hsame)
            apply compare_eq_lt_iff.mp
            rcases List.mem_cons.mp (mem_eraseReps_iff.mp hid) with rfl | hlater
            · exact hsecond
            · exact Std.TransCmp.lt_of_lt_of_isLE hsecond
                ((List.pairwise_cons.mp hrest).1 id hlater)

theorem nodup_of_pairwise {ids : List Identifier} (h : ids.Pairwise Precedes) : ids.Nodup := by
  apply h.imp
  rintro a b hab rfl
  exact hab.asymm hab

/-- There is one list in strict order with some identifiers. -/
theorem eq_of_pairwise {ids others : List Identifier} (hids : ids.Pairwise Precedes)
    (hothers : others.Pairwise Precedes) (h : ∀ id, id ∈ ids ↔ id ∈ others) : ids = others := by
  apply List.Perm.eq_of_pairwise _ hids hothers
  · exact (List.perm_ext_iff_of_nodup (nodup_of_pairwise hids) (nodup_of_pairwise hothers)).mpr h
  · intro a b _ _ hab hba
    exact absurd hba hab.asymm

end Identifier

namespace Property

/-!
# The ranges in strict order
-/

theorem pairwise_distinctRanges (p : Property) :
    p.distinctRanges.Pairwise Identifier.Precedes :=
  Identifier.pairwise_eraseReps (Identifier.sortedOn_sortOn (fun range => range) p.ranges)

theorem toFinset_distinctRanges (p : Property) :
    p.distinctRanges.toFinset = p.ranges.toFinset := by
  ext range
  rw [List.mem_toFinset, List.mem_toFinset, mem_distinctRanges_iff]

theorem length_distinctRanges (p : Property) :
    p.distinctRanges.length = p.ranges.toFinset.card := by
  rw [← toFinset_distinctRanges,
    List.toFinset_card_of_nodup (Identifier.nodup_of_pairwise p.pairwise_distinctRanges)]

/-- A field depends on the set of the ranges only. -/
theorem field_congr_ranges (o : Options) {p : Property} {ranges : List Identifier}
    (h : ∀ range, range ∈ ranges ↔ range ∈ p.ranges) :
    ({ p with ranges } : Property).field o = p.field o := by
  have hdistinct : ({ p with ranges } : Property).distinctRanges = p.distinctRanges := by
    apply Identifier.eq_of_pairwise (pairwise_distinctRanges _) (pairwise_distinctRanges p)
    intro range
    rw [mem_distinctRanges_iff, mem_distinctRanges_iff]
    exact h range
  rw [field, field, valueType, valueType, hdistinct]
  rfl

/-!
# The type of the values
-/

theorem valueType_of_nil {p : Property} (h : p.distinctRanges = []) :
    p.valueType = .reference "never" := by
  rw [valueType, h]

theorem valueType_of_singleton {p : Property} {only : Identifier}
    (h : p.distinctRanges = [only]) : p.valueType = .reference only.name := by
  rw [valueType, h]

theorem valueType_of_one_lt_length {p : Property} (h : 1 < p.distinctRanges.length) :
    p.valueType = .union (p.distinctRanges.map fun range => .reference range.name) := by
  rw [valueType]
  split
  · simp_all
  · simp_all
  · rfl

theorem distinctRanges_eq_singleton {p : Property} {only : Identifier}
    (h : p.ranges.toFinset = {only}) : p.distinctRanges = [only] := by
  apply Identifier.eq_of_pairwise p.pairwise_distinctRanges
    (List.pairwise_singleton Identifier.Precedes only)
  intro range
  rw [mem_distinctRanges_iff, ← List.mem_toFinset, h, Finset.mem_singleton, List.mem_singleton]

/-- A union that is the type of a property has an arm for each of its ranges. -/
theorem length_of_valueType_eq_union {p : Property} {arms : List TypeExpr}
    (h : p.valueType = .union arms) :
    1 < p.distinctRanges.length ∧ arms.length = p.distinctRanges.length := by
  match hranges : p.distinctRanges with
  | [] =>
      rw [valueType_of_nil hranges] at h
      cases h
  | [only] =>
      rw [valueType_of_singleton hranges] at h
      cases h
  | first :: second :: rest =>
      have hlength : 1 < p.distinctRanges.length := by
        rw [hranges]
        simp
      rw [valueType_of_one_lt_length hlength, TypeExpr.union.injEq] at h
      rw [← hranges, ← h, List.length_map]
      exact ⟨hlength, rfl⟩

/--
The type of a property's field depends on the set of the ranges only, whatever their order and
however often they are repeated, and so does the whole field.

There is a list of the ranges in strict order of names and IRIs, each range once.  The type
is `never` if there is no range and the range itself if there is one; otherwise it is the
union over this list, so it is never a union of fewer than two arms.
-/
theorem field_over_ranges (o : Options) (p : Property) :
    (∀ ranges : List Identifier, (∀ range, range ∈ ranges ↔ range ∈ p.ranges) →
      ({ p with ranges } : Property).field o = p.field o) ∧
    ∃ ordered : List Identifier,
      ordered.Pairwise Identifier.Precedes ∧
      (∀ range, range ∈ ordered ↔ range ∈ p.ranges) ∧
      ordered.length = p.ranges.toFinset.card ∧
      (p.ranges = [] → (p.field o).type = .reference "never") ∧
      (∀ only, p.ranges.toFinset = {only} → (p.field o).type = .reference only.name) ∧
      (1 < p.ranges.toFinset.card →
        (p.field o).type = .union (ordered.map fun range => .reference range.name)) ∧
      ∀ arms, (p.field o).type = .union arms →
        1 < arms.length ∧ arms.length = p.ranges.toFinset.card := by
  have htype : (p.field o).type = p.valueType := rfl
  have hcard := p.length_distinctRanges
  refine ⟨fun _ => field_congr_ranges o, p.distinctRanges, p.pairwise_distinctRanges,
    fun _ => mem_distinctRanges_iff, hcard, ?_, ?_, ?_, ?_⟩
  · intro hnone
    rw [htype, valueType_of_nil (distinctRanges_eq_nil_iff.mpr hnone)]
  · intro only hsingle
    rw [htype, valueType_of_singleton (distinctRanges_eq_singleton hsingle)]
  · intro hmany
    rw [← hcard] at hmany
    rw [htype, valueType_of_one_lt_length hmany]
  · intro arms harms
    rw [htype] at harms
    rcases length_of_valueType_eq_union harms with ⟨hmany, hlength⟩
    rw [hlength, ← hcard]
    exact ⟨hmany, rfl⟩

/-- A property with three ranges, one of them repeated and two of one name. -/
def author : Property :=
  { id := ⟨"author", "s:author"⟩
    ranges := [⟨"Person", "s:Person"⟩, ⟨"Person", "p:Person"⟩, ⟨"Group", "s:Group"⟩,
      ⟨"Person", "s:Person"⟩]
    comment := some "Who wrote it."
    deprecated := true }

theorem field_of_author :
    (∀ range, range ∈ [⟨"Group", "s:Group"⟩, ⟨"Person", "s:Person"⟩, ⟨"Person", "p:Person"⟩,
        ⟨"Group", "s:Group"⟩] ↔ range ∈ author.ranges) ∧
      ({ author with
          ranges := [⟨"Group", "s:Group"⟩, ⟨"Person", "s:Person"⟩, ⟨"Person", "p:Person"⟩,
            ⟨"Group", "s:Group"⟩] } : Property).field .standard = author.field .standard ∧
      1 < author.ranges.toFinset.card ∧
      (author.field .standard).type =
        .union [.reference "Group", .reference "Person", .reference "Person"] := by
  have hranges : ∀ range, range ∈ [⟨"Group", "s:Group"⟩, ⟨"Person", "s:Person"⟩,
      ⟨"Person", "p:Person"⟩, ⟨"Group", "s:Group"⟩] ↔ range ∈ author.ranges := by
    intro range
    simp only [author, List.mem_cons, List.not_mem_nil, or_false]
    tauto
  have hmany : 1 < author.ranges.toFinset.card := by
    decide
  have hcompared : List.Pairwise (fun a b => compare a b = .lt)
      [(⟨"Group", "s:Group"⟩ : Identifier), ⟨"Person", "p:Person"⟩, ⟨"Person", "s:Person"⟩] := by
    decide
  rcases field_over_ranges .standard author with
    ⟨hset, ordered, hpairwise, hmem, _, _, _, hunion, _⟩
  have hordered : ordered =
      [⟨"Group", "s:Group"⟩, ⟨"Person", "p:Person"⟩, ⟨"Person", "s:Person"⟩] := by
    apply Identifier.eq_of_pairwise hpairwise
    · exact hcompared.imp Identifier.compare_eq_lt_iff.mp
    · intro range
      rw [hmem, author]
      simp only [List.mem_cons, List.not_mem_nil, or_false]
      tauto
  rw [hordered] at hunion
  exact ⟨hranges, hset _ hranges, hmany, hunion hmany⟩

end Property

end VocabTypes
