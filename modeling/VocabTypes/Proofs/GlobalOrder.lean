import Mathlib.Data.String.Basic
import Mathlib.Order.Compare
import VocabTypes.Proofs.Representation

/-!
# The global order

## One list and no other

No two entities of a registry share an IRI, so the global order leaves no ties between
them: it is a strict total order on the ids, and there is one list of all ids that follows
it.  In this list the scalars come first, then the union over them and then the classes,
and each of the three groups goes by name and IRI.
-/

namespace VocabTypes

/-!
# Comparing identifiers and entities
-/

/-- An identifier comes before another one by its name, or by its IRI under the same name. -/
def Identifier.Precedes (a b : Identifier) : Prop :=
  a.name < b.name ∨ a.name = b.name ∧ a.href < b.href

theorem Identifier.compare_eq_lt_iff {a b : Identifier} :
    compare a b = .lt ↔ a.Precedes b := by
  have hparts : compare a b = (compare a.name b.name).then (compare a.href b.href) := rfl
  rw [hparts, Ordering.then_eq_lt, compare_lt_iff_lt, compare_eq_iff_eq, compare_lt_iff_lt,
    Precedes]

theorem Identifier.Precedes.asymm {a b : Identifier} (h : a.Precedes b) : ¬ b.Precedes a := by
  rw [← compare_eq_lt_iff] at h ⊢
  rw [Std.OrientedCmp.gt_of_lt h]
  exact Ordering.noConfusion

theorem Entity.compare_eq_lt_iff {a b : Entity} :
    compare a b = .lt ↔
      a.kind.rank < b.kind.rank ∨ a.kind.rank = b.kind.rank ∧ a.subject.Precedes b.subject := by
  have hparts :
      compare a b = (compare a.kind.rank b.kind.rank).then (compare a.subject b.subject) := rfl
  rw [hparts, Ordering.then_eq_lt, Nat.compare_eq_lt, Nat.compare_eq_eq,
    Identifier.compare_eq_lt_iff]

namespace Kind

theorem rank_cases (kind : Kind) : kind.rank = 0 ∨ kind.rank = 1 ∨ kind.rank = 2 := by
  cases kind <;> simp [rank]

theorem rank_eq_zero_iff {kind : Kind} : kind.rank = 0 ↔ kind.isScalar = true := by
  cases kind <;> simp [rank, isScalar]

theorem rank_eq_one_iff {kind : Kind} : kind.rank = 1 ↔ kind.isDataTypeUnion = true := by
  cases kind <;> simp [rank, isDataTypeUnion]

theorem rank_eq_two_iff {kind : Kind} : kind.rank = 2 ↔ kind = .rdfsClass := by
  cases kind <;> simp [rank]

end Kind

/-- What the place of an entity in the global order depends on. -/
def Entity.place (e : Entity) : Nat × Identifier :=
  (e.kind.rank, e.subject)

namespace Registry

/-- One id is listed before another one. -/
def Before (r : Registry) (a b : EntityId) : Prop :=
  r.compareIds? a b = some .lt

/-- The identifier at one position comes before the one at another position. -/
def NamedBefore (r : Registry) (a b : EntityId) : Prop :=
  ∃ e f, r.entity? a = some e ∧ r.entity? b = some f ∧ e.subject.Precedes f.subject

/-!
# Comparing ids
-/

theorem compareIds?_eq_some_iff {r : Registry} {a b : EntityId} {order : Ordering} :
    r.compareIds? a b = some order ↔
      ∃ e f, r.entity? a = some e ∧ r.entity? b = some f ∧ compare e f = order := by
  unfold compareIds?
  cases r.entity? a with
  | none => simp
  | some e =>
      cases r.entity? b with
      | none => simp
      | some f => simp

theorem before_iff {r : Registry} {a b : EntityId} {e f : Entity} (he : r.entity? a = some e)
    (hf : r.entity? b = some f) : r.Before a b ↔ compare e f = .lt := by
  rw [Before, compareIds?, he, hf, Option.some.injEq]

theorem compareIds?_swap {r : Registry} {a b : EntityId} {order : Ordering}
    (h : r.compareIds? a b = some order) : r.compareIds? b a = some order.swap := by
  rcases compareIds?_eq_some_iff.mp h with ⟨e, f, he, hf, rfl⟩
  exact compareIds?_eq_some_iff.mpr ⟨f, e, hf, he, Std.OrientedCmp.eq_swap⟩

theorem Before.trans {r : Registry} {a b c : EntityId} (hab : r.Before a b)
    (hbc : r.Before b c) : r.Before a c := by
  rcases compareIds?_eq_some_iff.mp hab with ⟨e, f, he, hf, hlt⟩
  rcases compareIds?_eq_some_iff.mp hbc with ⟨f', g, hf', hg, hlater⟩
  rw [hf] at hf'
  cases hf'
  exact (before_iff he hg).mpr (Std.TransCmp.lt_trans hlt hlater)

theorem Before.asymm {r : Registry} {a b : EntityId} (hab : r.Before a b) : ¬ r.Before b a := by
  intro hba
  have hswap := compareIds?_swap hab
  rw [Before, hswap] at hba
  cases hba

instance (r : Registry) : Trans r.Before r.Before r.Before :=
  ⟨Before.trans⟩

/-- Identifiers that compare equal have one IRI, which is known at one position only. -/
theorem Indexed.eq_of_compare_subject {r : Registry} (h : r.Indexed) {a b : EntityId}
    {e f : Entity} (he : r.entity? a = some e) (hf : r.entity? b = some f)
    (hequal : compare e.subject f.subject = .eq) : a = b := by
  have hsubject : e.subject = f.subject := Std.LawfulEqOrd.eq_of_compare hequal
  have hfound := h.find?_href he
  rw [Entity.href, hsubject, ← Entity.href, h.find?_href hf] at hfound
  exact (Option.some.inj hfound).symm

theorem Indexed.compareIds?_eq_iff {r : Registry} (h : r.Indexed) {a b : EntityId}
    (ha : a < r.size) : r.compareIds? a b = some .eq ↔ a = b := by
  constructor
  · intro hequal
    rcases compareIds?_eq_some_iff.mp hequal with ⟨e, f, he, hf, hcompare⟩
    exact h.eq_of_compare_subject he hf (compareLex_eq_eq.mp hcompare).right
  · rintro rfl
    rcases (r.lt_size_iff a).mp ha with ⟨e, he⟩
    exact compareIds?_eq_some_iff.mpr ⟨e, e, he, he, Std.ReflCmp.compare_self⟩

/-!
# The list of all ids
-/

theorem idsInOrder_perm (r : Registry) : r.idsInOrder.Perm (List.range r.size) := by
  have hids : r.entities.zipIdx.map Prod.snd = List.range r.size := by
    rw [List.zipIdx_map_snd, List.range_eq_range']
    rfl
  rw [idsInOrder, inOrder, ← hids]
  exact (List.mergeSort_perm _ _).map Prod.snd

theorem nodup_idsInOrder (r : Registry) : r.idsInOrder.Nodup :=
  r.idsInOrder_perm.nodup_iff.mpr List.nodup_range

/-- Sorting orders the ids weakly, and as none is listed twice there are no ties. -/
theorem Indexed.pairwise_idsInOrder {r : Registry} (h : r.Indexed) :
    r.idsInOrder.Pairwise r.Before := by
  have hsorted : r.inOrder.Pairwise fun a b => (compareOn Prod.fst a b).isLE = true :=
    pairwise_mergeSort_cmp r.entities.zipIdx
  have hnodup : r.inOrder.Pairwise fun a b => a.2 ≠ b.2 :=
    List.pairwise_map.mp r.nodup_idsInOrder
  rw [idsInOrder, List.pairwise_map]
  apply List.Pairwise.imp_of_mem _ (hsorted.and hnodup)
  intro a b ha hb hab
  have hfirst : r.entity? a.2 = some a.1 := mem_inOrder_iff.mp ha
  have hsecond : r.entity? b.2 = some b.1 := mem_inOrder_iff.mp hb
  rw [before_iff hfirst hsecond]
  cases hcompare : compare a.1 b.1 with
  | lt => rfl
  | eq =>
      have hissued : a.2 < r.size := (r.lt_size_iff a.2).mpr ⟨a.1, hfirst⟩
      have hsame : r.compareIds? a.2 b.2 = some .eq :=
        compareIds?_eq_some_iff.mpr ⟨a.1, b.1, hfirst, hsecond, hcompare⟩
      exact absurd ((h.compareIds?_eq_iff hissued).mp hsame) hab.right
  | gt =>
      have hle := hab.left
      rw [compareOn, hcompare] at hle
      cases hle

/-- A list of all ids in which each one is listed before the next is the list in order. -/
theorem Indexed.eq_idsInOrder {r : Registry} (h : r.Indexed) {ids : List EntityId}
    (hperm : ids.Perm (List.range r.size)) (hchain : ids.IsChain r.Before) :
    ids = r.idsInOrder := by
  apply List.Perm.eq_of_pairwise _ (List.isChain_iff_pairwise.mp hchain) h.pairwise_idsInOrder
    (hperm.trans r.idsInOrder_perm.symm)
  intro a b _ _ hab hba
  exact absurd hba hab.asymm

/-- The places in order depend on the places of the entities only, whatever their ids. -/
theorem map_place_idsInOrder_eq_of_perm {r s : Registry}
    (hperm : (r.entities.map Entity.place).Perm (s.entities.map Entity.place)) :
    (r.idsInOrder.map fun id => (r.entity? id).map Entity.place) =
      s.idsInOrder.map fun id => (s.entity? id).map Entity.place := by
  have hplaces : ∀ t : Registry,
      (t.idsInOrder.map fun id => (t.entity? id).map Entity.place) =
        ((t.entities.map Entity.place).mergeSort fun a b =>
          (compareLex (compareOn Prod.fst) (compareOn Prod.snd) a b).isLE).map some := by
    intro t
    have hsorted : t.entitiesInOrder.map Entity.place =
        (t.entities.map Entity.place).mergeSort fun a b =>
          (compareLex (compareOn Prod.fst) (compareOn Prod.snd) a b).isLE := by
      rw [entitiesInOrder_eq]
      exact List.map_mergeSort fun _ _ _ _ => rfl
    have hentities := congrArg (List.map (Option.map Entity.place)) t.map_some_entitiesInOrder
    rw [List.map_map, List.map_map] at hentities
    rw [← hsorted, List.map_map]
    exact hentities
  rw [hplaces r, hplaces s]
  apply congrArg (List.map some)
  apply mergeSort_eq_of_perm hperm
  intro a _ b _ hequal
  rcases compareLex_eq_eq.mp hequal with ⟨hrank, hsubject⟩
  exact Prod.ext (Std.LawfulEqOrd.eq_of_compare hrank) (Std.LawfulEqOrd.eq_of_compare hsubject)

/-!
# The three groups

The rank of a kind comes first in the order.  So the ids of each rank, put one after the
other, follow the order, and there is only one list of all ids that does.
-/

/-- The ids of the entities of some rank, in order. -/
def idsOfRank (r : Registry) (rank : Nat) : List EntityId :=
  r.idsInOrder.filter (r.holdsAt fun e => e.kind.rank == rank)

theorem mem_idsOfRank_iff {r : Registry} {rank : Nat} {id : EntityId} :
    id ∈ r.idsOfRank rank ↔ ∃ e, r.entity? id = some e ∧ e.kind.rank = rank := by
  rw [idsOfRank, List.mem_filter, mem_idsInOrder_iff, holdsAt_iff, lt_size_iff]
  constructor
  · intro hid
    rcases hid with ⟨_, e, he, hrank⟩
    exact ⟨e, he, eq_of_beq hrank⟩
  · intro hid
    rcases hid with ⟨e, he, hrank⟩
    exact ⟨⟨e, he⟩, e, he, beq_iff_eq.mpr hrank⟩

theorem before_of_rank_lt {r : Registry} {low high : Nat} (hlt : low < high) {a b : EntityId}
    (ha : a ∈ r.idsOfRank low) (hb : b ∈ r.idsOfRank high) : r.Before a b := by
  rcases mem_idsOfRank_iff.mp ha with ⟨e, he, rfl⟩
  rcases mem_idsOfRank_iff.mp hb with ⟨f, hf, rfl⟩
  exact (before_iff he hf).mpr (Entity.compare_eq_lt_iff.mpr (Or.inl hlt))

section

variable {r : Registry} (h : r.Indexed)

include h

theorem Indexed.pairwise_before_idsOfRank (rank : Nat) :
    (r.idsOfRank rank).Pairwise r.Before :=
  h.pairwise_idsInOrder.sublist List.filter_sublist

theorem Indexed.pairwise_idsOfRank (rank : Nat) :
    (r.idsOfRank rank).Pairwise r.NamedBefore := by
  apply List.Pairwise.imp_of_mem _ (h.pairwise_before_idsOfRank rank)
  intro a b ha hb hab
  rcases mem_idsOfRank_iff.mp ha with ⟨e, he, hfirst⟩
  rcases mem_idsOfRank_iff.mp hb with ⟨f, hf, hsecond⟩
  rw [before_iff he hf, Entity.compare_eq_lt_iff, hfirst, hsecond] at hab
  exact ⟨e, f, he, hf, (hab.resolve_left (Nat.lt_irrefl rank)).right⟩

theorem Indexed.idsInOrder_eq :
    r.idsInOrder = r.idsOfRank 0 ++ (r.idsOfRank 1 ++ r.idsOfRank 2) := by
  have hpairwise :
      (r.idsOfRank 0 ++ (r.idsOfRank 1 ++ r.idsOfRank 2)).Pairwise r.Before := by
    rw [List.pairwise_append, List.pairwise_append]
    refine ⟨h.pairwise_before_idsOfRank 0, ⟨h.pairwise_before_idsOfRank 1,
      h.pairwise_before_idsOfRank 2, ?_⟩, ?_⟩
    · intro a ha b hb
      exact before_of_rank_lt (by decide) ha hb
    · intro a ha b hb
      rcases List.mem_append.mp hb with hunion | hclass
      · exact before_of_rank_lt (by decide) ha hunion
      · exact before_of_rank_lt (by decide) ha hclass
  have hnodup : (r.idsOfRank 0 ++ (r.idsOfRank 1 ++ r.idsOfRank 2)).Nodup := by
    apply hpairwise.imp
    intro a b hab hsame
    rw [hsame] at hab
    exact hab.asymm hab
  have hperm : (r.idsOfRank 0 ++ (r.idsOfRank 1 ++ r.idsOfRank 2)).Perm
      (List.range r.size) := by
    rw [List.perm_ext_iff_of_nodup hnodup List.nodup_range]
    intro id
    simp only [List.mem_append, mem_idsOfRank_iff, List.mem_range, lt_size_iff, ← exists_or,
      ← and_or_left, Kind.rank_cases, and_true]
  exact (h.eq_idsInOrder hperm hpairwise.isChain).symm

end

/-- The one union of data types is alone in its group. -/
theorem UnionSound.length_le_one {r : Registry} (h : r.UnionSound) :
    (r.idsOfRank 1).length ≤ 1 := by
  have hnodup : (r.idsOfRank 1).Nodup := r.nodup_idsInOrder.filter _
  have hsame : ∀ a ∈ r.idsOfRank 1, ∀ b ∈ r.idsOfRank 1, b = a := by
    intro a ha b hb
    rcases mem_idsOfRank_iff.mp ha with ⟨e, he, hunion⟩
    rcases mem_idsOfRank_iff.mp hb with ⟨f, hf, hother⟩
    exact h.only a b e f he hf (Kind.rank_eq_one_iff.mp hunion) (Kind.rank_eq_one_iff.mp hother)
  cases hids : r.idsOfRank 1 with
  | nil => exact Nat.zero_le 1
  | cons first rest =>
      cases rest with
      | nil => exact Nat.le_refl 1
      | cons second rest =>
          rw [hids] at hnodup hsame
          have hne := (List.pairwise_cons.mp hnodup).left second List.mem_cons_self
          exact absurd (hsame second (by simp) first (by simp)) hne

/--
The global order of a reachable registry is a strict total order on the issued ids: the
answers for two ids mirror one another, ids that compare equal are the same, and the order
is transitive.  The list in order holds every id once, each one before the next, and no
other list does; the places in it do not depend on the order of registration.  It is made up
of the scalars, the union over them, of which there is at most one, and the classes, and
each of these goes by name and IRI.
-/
theorem global_order_is_strict {r : Registry} (hr : r.Reachable) :
    (∀ a b, a < r.size → b < r.size → ∃ order,
      r.compareIds? a b = some order ∧ r.compareIds? b a = some order.swap ∧
        (order = .eq ↔ a = b)) ∧
    (∀ a b c, r.Before a b → r.Before b c → r.Before a c) ∧
    (r.idsInOrder.Perm (List.range r.size) ∧ r.idsInOrder.IsChain r.Before) ∧
    (∀ ids : List EntityId, ids.Perm (List.range r.size) → ids.IsChain r.Before →
      ids = r.idsInOrder) ∧
    (∀ s : Registry, (r.entities.map Entity.place).Perm (s.entities.map Entity.place) →
      (r.idsInOrder.map fun id => (r.entity? id).map Entity.place) =
        s.idsInOrder.map fun id => (s.entity? id).map Entity.place) ∧
    ∃ scalars unions classes, r.idsInOrder = scalars ++ (unions ++ classes) ∧
      (∀ id, id ∈ scalars ↔ ∃ e, r.entity? id = some e ∧ e.kind.isScalar = true) ∧
      (∀ id, id ∈ unions ↔ ∃ e, r.entity? id = some e ∧ e.kind.isDataTypeUnion = true) ∧
      (∀ id, id ∈ classes ↔ ∃ e, r.entity? id = some e ∧ e.kind = .rdfsClass) ∧
      unions.length ≤ 1 ∧
      (∀ id e, r.entity? id = some e → ∀ member ∈ e.kind.members, member ∈ scalars) ∧
      ∀ group ∈ [scalars, unions, classes], group.Pairwise r.NamedBefore := by
  have h := hr.wellFormed.indexed
  refine ⟨?_, fun _ _ _ => Before.trans, ⟨r.idsInOrder_perm, h.pairwise_idsInOrder.isChain⟩,
    fun _ => h.eq_idsInOrder, fun _ => map_place_idsInOrder_eq_of_perm,
    r.idsOfRank 0, r.idsOfRank 1, r.idsOfRank 2, h.idsInOrder_eq, ?_, ?_, ?_,
    hr.unionSound.length_le_one, ?_, ?_⟩
  · intro a b ha hb
    rcases Option.isSome_iff_exists.mp (compareIds?_isSome ha hb) with ⟨order, horder⟩
    refine ⟨order, horder, compareIds?_swap horder, ?_⟩
    rw [← h.compareIds?_eq_iff ha, horder, Option.some.injEq]
  · intro id
    simp only [mem_idsOfRank_iff, Kind.rank_eq_zero_iff]
  · intro id
    simp only [mem_idsOfRank_iff, Kind.rank_eq_one_iff]
  · intro id
    simp only [mem_idsOfRank_iff, Kind.rank_eq_two_iff]
  · intro id e he member hmember
    simp only [mem_idsOfRank_iff, Kind.rank_eq_zero_iff]
    exact isScalar_iff.mp (hr.unionSound.members id e he member hmember).right
  · intro group hgroup
    simp only [List.mem_cons, List.not_mem_nil, or_false] at hgroup
    rcases hgroup with rfl | rfl | rfl
    · exact h.pairwise_idsOfRank 0
    · exact h.pairwise_idsOfRank 1
    · exact h.pairwise_idsOfRank 2

/-- The terms of the catalogue in another order, the classes first. -/
def reshelved : Registry :=
  empty.run
    [.insertClass ⟨"Book", "s:Book"⟩ true,
      .insertClass ⟨"Work", "s:Work"⟩ false,
      .insertBooleanEnum "s/Flag" "s/Yes" "s/No" "",
      .insertBuiltin "s/Label" "string" "",
      .insertDataTypeUnion "s/Value" [3, 2] ""]

theorem order_of_catalogue :
    catalogue.Reachable ∧ [1, 0, 2, 4, 3].Perm (List.range catalogue.size) ∧
      [1, 0, 2, 4, 3].IsChain catalogue.Before ∧ catalogue.idsInOrder = [1, 0, 2, 4, 3] ∧
      (catalogue.entities.map Entity.place).Perm (reshelved.entities.map Entity.place) ∧
      (reshelved.idsInOrder.map fun id => (reshelved.entity? id).map Entity.place) =
        [1, 0, 2, 4, 3].map fun id => (catalogue.entity? id).map Entity.place := by
  have hr : catalogue.Reachable := ⟨catalogueCalls, rfl⟩
  have hsize : catalogue.size = 5 := by
    cbv
  have hplaces : catalogue.entities.map Entity.place =
      [(0, ⟨"Label", "s/Label"⟩), (0, ⟨"Flag", "s/Flag"⟩), (1, ⟨"Value", "s/Value"⟩),
        (2, ⟨"Work", "s:Work"⟩), (2, ⟨"Book", "s:Book"⟩)] := by
    cbv
  have hothers : reshelved.entities.map Entity.place =
      [(2, ⟨"Book", "s:Book"⟩), (2, ⟨"Work", "s:Work"⟩), (0, ⟨"Flag", "s/Flag"⟩),
        (0, ⟨"Label", "s/Label"⟩), (1, ⟨"Value", "s/Value"⟩)] := by
    cbv
  have hall : [1, 0, 2, 4, 3].Perm (List.range catalogue.size) := by
    rw [hsize]
    decide
  have hchain : [1, 0, 2, 4, 3].IsChain catalogue.Before := by
    have hcompared : catalogue.compareIds? 1 0 = some .lt ∧
        catalogue.compareIds? 0 2 = some .lt ∧ catalogue.compareIds? 2 4 = some .lt ∧
        catalogue.compareIds? 4 3 = some .lt := by
      cbv
    simpa [Before, List.isChain_cons_cons] using hcompared
  have hperm :
      (catalogue.entities.map Entity.place).Perm (reshelved.entities.map Entity.place) := by
    rw [hplaces, hothers]
    decide
  rcases global_order_is_strict hr with ⟨_, _, _, honly, hsame, _⟩
  have hids := honly _ hall hchain
  have hshelves := hsame reshelved hperm
  rw [← hids] at hshelves
  exact ⟨hr, hall, hchain, hids.symm, hperm, hshelves.symm⟩

end Registry
end VocabTypes
