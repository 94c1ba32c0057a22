import Mathlib.Data.List.Chain
import Mathlib.Data.List.Perm.Subperm
import VocabTypes.Proofs.WellFormed

/-!
# Recursion along parents

## Chains of parents are short

In a well-formed registry no entity is above itself, so a chain of parents visits
each entity at most once.  What an entity inherits can therefore be found by plain
recursion along parents, which needs no more nested calls than there are entities
and agrees with the answer of the search.
-/

namespace VocabTypes
namespace Registry

open Relation

/-!
# Inheritance by recursion

The recursions give no answer where the depth does not suffice or an id has not been
issued.
-/

/-- Whether some entity above is a builtin, by at most `depth` nested calls. -/
def extendsBuiltinWithin (r : Registry) : Nat → EntityId → Option Bool
  | 0, _ => none
  | depth + 1, id => do
      let e ← r.entity? id
      e.parents.anyM fun parent => do
        let above ← r.entity? parent
        if above.kind.isBuiltin then return true else r.extendsBuiltinWithin depth parent

/-- Whether the entity or one above it allows a bare string, by at most `depth` nested calls. -/
def admitsStringWithin (r : Registry) : Nat → EntityId → Option Bool
  | 0, _ => none
  | depth + 1, id => do
      let e ← r.entity? id
      if e.allowString then return true else e.parents.anyM (r.admitsStringWithin depth)

/-!
# Chains
-/

theorem reaches_of_chain {r : Registry} {id : EntityId} {chain : List EntityId}
    (hchain : (id :: chain).IsChain r.IsParent) :
    ∀ above ∈ chain, TransGen r.IsParent id above := by
  induction chain generalizing id with
  | nil =>
      intro above habove
      cases habove
  | cons parent chain ih =>
      rcases List.isChain_cons_cons.mp hchain with ⟨hparent, hrest⟩
      intro above habove
      rcases List.mem_cons.mp habove with rfl | hmem
      · exact TransGen.single hparent
      · exact TransGen.head hparent (ih hrest above hmem)

theorem Acyclic.chain_nodup {r : Registry} (h : r.Acyclic) {chain : List EntityId}
    (hchain : chain.IsChain r.IsParent) : chain.Nodup := by
  induction chain with
  | nil => exact List.nodup_nil
  | cons id chain ih =>
      rw [List.nodup_cons]
      constructor
      · intro hmem
        exact h id (reaches_of_chain hchain id hmem)
      · exact ih hchain.tail

theorem WellFormed.chain_lt {r : Registry} (h : r.WellFormed) {id : EntityId}
    {chain : List EntityId} (hid : id < r.size) (hchain : (id :: chain).IsChain r.IsParent) :
    ∀ above ∈ id :: chain, above < r.size := by
  intro above habove
  rcases List.mem_cons.mp habove with rfl | hmem
  · exact hid
  · rcases TransGen.tail'_iff.mp (reaches_of_chain hchain above hmem) with ⟨_, _, hlast⟩
    exact h.parent_lt hlast

/-- A chain of parents that starts at a registered entity is no longer than the table. -/
theorem WellFormed.chain_length_le {r : Registry} (h : r.WellFormed) {id : EntityId}
    {chain : List EntityId} (hid : id < r.size) (hchain : (id :: chain).IsChain r.IsParent) :
    (id :: chain).length ≤ r.size := by
  have hsubset : id :: chain ⊆ List.range r.size := by
    intro above habove
    exact List.mem_range.mpr (h.chain_lt hid hchain above habove)
  have hsubperm := (h.acyclic.chain_nodup hchain).subperm hsubset
  simpa using hsubperm.length_le

/-!
# The recursions end

The induction is on the depth, with the bound on the chains that start at the entity
as what a call hands on to the calls for its parents.
-/

def ChainsWithin (r : Registry) (depth : Nat) (id : EntityId) : Prop :=
  ∀ chain, (id :: chain).IsChain r.IsParent → (id :: chain).length ≤ depth

theorem ChainsWithin.parent {r : Registry} {depth : Nat} {id parent : EntityId}
    (h : r.ChainsWithin (depth + 1) id) (hparent : r.IsParent id parent) :
    r.ChainsWithin depth parent := by
  intro chain hchain
  have hlonger := h (parent :: chain) (List.isChain_cons_cons.mpr ⟨hparent, hchain⟩)
  exact Nat.le_of_succ_le_succ hlonger

theorem not_chainsWithin_zero {r : Registry} {id : EntityId} : ¬ r.ChainsWithin 0 id := by
  intro h
  have hself := h [] (List.isChain_singleton id)
  exact Nat.not_succ_le_zero 0 hself

theorem anyM_eq_some {α : Type} {f : α → Option Bool} {g : α → Bool} {items : List α}
    (h : ∀ item ∈ items, f item = some (g item)) : items.anyM f = some (items.any g) := by
  induction items with
  | nil => rfl
  | cons item items ih =>
      have hrest := ih fun other hother => h other (List.mem_cons_of_mem item hother)
      rw [List.anyM_cons, h item List.mem_cons_self, hrest, List.any_cons]
      cases g item with
      | false => rfl
      | true => rfl

theorem WellFormed.extendsBuiltinWithin_eq {r : Registry} (h : r.WellFormed) {depth : Nat}
    {id : EntityId} {e : Entity} (he : r.entity? id = some e)
    (hchains : r.ChainsWithin depth id) :
    r.extendsBuiltinWithin depth id = some (r.extendsBuiltin e) := by
  induction depth generalizing id e with
  | zero => exact absurd hchains not_chainsWithin_zero
  | succ depth ih =>
      rw [extendsBuiltinWithin, he, extendsBuiltin_eq_any he]
      apply anyM_eq_some
      intro parent hmem
      have hparent : r.IsParent id parent := by
        rw [IsParent, parentsOf_of_entity? he]
        exact hmem
      rcases (r.lt_size_iff parent).mp (h.parent_lt hparent) with ⟨p, hp⟩
      have hcall := ih hp (hchains.parent hparent)
      rw [hcall, holdsAt, hp]
      cases hbuiltin : p.kind.isBuiltin with
      | false => simp [hbuiltin]
      | true => simp [hbuiltin]

theorem WellFormed.admitsStringWithin_eq {r : Registry} (h : r.WellFormed) {depth : Nat}
    {id : EntityId} {e : Entity} (he : r.entity? id = some e)
    (hchains : r.ChainsWithin depth id) :
    r.admitsStringWithin depth id = some (r.admitsString e) := by
  induction depth generalizing id e with
  | zero => exact absurd hchains not_chainsWithin_zero
  | succ depth ih =>
      rw [admitsStringWithin, he, admitsString_eq_any he]
      cases hown : e.allowString with
      | true => simp [hown]
      | false =>
          have hparents :
              e.parents.anyM (r.admitsStringWithin depth) =
                some (e.parents.any (r.holdsAt r.admitsString)) := by
            apply anyM_eq_some
            intro parent hmem
            have hparent : r.IsParent id parent := by
              rw [IsParent, parentsOf_of_entity? he]
              exact hmem
            rcases (r.lt_size_iff parent).mp (h.parent_lt hparent) with ⟨p, hp⟩
            rw [ih hp (hchains.parent hparent), holdsAt, hp]
            rfl
          simpa [hown] using hparents

/--
In a reachable registry no entity can be reached from itself by steps to a parent.
The two recursions along parents therefore end for every registered entity, with no
more nested calls than there are entities, and answer what the search answers.
-/
theorem acyclic_and_recursions_end {r : Registry} (hr : r.Reachable) :
    (∀ id, ¬ TransGen r.IsParent id id) ∧
      ∀ id e, r.entity? id = some e →
        (∀ chain, (id :: chain).IsChain r.IsParent → (id :: chain).length ≤ r.size) ∧
          ∀ depth, r.size ≤ depth →
            r.extendsBuiltinWithin depth id = some (r.extendsBuiltin e) ∧
              r.admitsStringWithin depth id = some (r.admitsString e) := by
  have h := hr.wellFormed
  constructor
  · exact h.acyclic
  · intro id e he
    have hchains : ∀ chain, (id :: chain).IsChain r.IsParent → (id :: chain).length ≤ r.size := by
      intro chain hchain
      exact h.chain_length_le ((r.lt_size_iff id).mpr ⟨e, he⟩) hchain
    constructor
    · exact hchains
    · intro depth hdepth
      have hwithin : r.ChainsWithin depth id := by
        intro chain hchain
        exact Nat.le_trans (hchains chain hchain) hdepth
      exact ⟨h.extendsBuiltinWithin_eq he hwithin, h.admitsStringWithin_eq he hwithin⟩

/-- Calls that make a diamond over a data type and then fail to close a cycle. -/
def diamondCalls : List Call :=
  [.insertBuiltin "s:Text" "string" "",
    .insertClass ⟨"Left", "s:Left"⟩ false,
    .insertClass ⟨"Right", "s:Right"⟩ true,
    .insertClass ⟨"Bottom", "s:Bottom"⟩ false,
    .assert 1 (Statement.subclassOf (.ofUrl "s:Text")).toFact,
    .assert 2 (Statement.subclassOf (.ofUrl "s:Text")).toFact,
    .assert 3 (Statement.subclassOf (.ofUrl "s:Left")).toFact,
    .assert 3 (Statement.subclassOf (.ofUrl "s:Right")).toFact,
    .assert 0 (Statement.subclassOf (.ofUrl "s:Bottom")).toFact]

theorem recursions_end_in_diamond :
    (empty.run diamondCalls).Reachable ∧
      (empty.run diamondCalls).parentsOf 3 = [1, 2] ∧
      ¬ TransGen (empty.run diamondCalls).IsParent 0 0 ∧
      (empty.run diamondCalls).size = 4 ∧
      ∃ bottom, (empty.run diamondCalls).entity? 3 = some bottom ∧
        (empty.run diamondCalls).extendsBuiltinWithin 4 3 =
          some ((empty.run diamondCalls).extendsBuiltin bottom) := by
  have hr : (empty.run diamondCalls).Reachable := ⟨diamondCalls, rfl⟩
  have hsize : (empty.run diamondCalls).size = 4 := by
    cbv
  rcases ((empty.run diamondCalls).lt_size_iff 3).mp (by rw [hsize]; decide) with ⟨bottom, he⟩
  have hends := (acyclic_and_recursions_end hr).right 3 bottom he
  refine ⟨hr, by cbv, (acyclic_and_recursions_end hr).left 0, hsize, bottom, he, ?_⟩
  exact (hends.right 4 (Nat.le_of_eq hsize)).left

end Registry
end VocabTypes
