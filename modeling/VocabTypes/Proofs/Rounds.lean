import Mathlib.Data.List.Chain
import Mathlib.Logic.Function.Iterate
import Mathlib.Logic.Relation

/-!
# Rounds

## Replacing names round after round

Some items are names of nodes.  A name stands for the items that its node has of its
own and for the names of the nodes that this one leads to.  When all names are replaced
round after round, each round finds the own items of the nodes that are one step
further away.  Where paths are bounded the names disappear, and what is left are the
own items of all nodes that can be reached.
-/

namespace VocabTypes
namespace Rounds

open Relation

variable {Node Item : Type}

/-- A node leads to another one in some number of steps. -/
def LeadsBy (leads : Node → Node → Prop) : Nat → Node → Node → Prop
  | 0, a, b => a = b
  | steps + 1, a, b => ∃ mid, LeadsBy leads steps a mid ∧ leads mid b

/-- One round, in which every item is replaced by what it stands for. -/
def round (unfold : Item → List Item) (items : List Item) : List Item :=
  items.flatMap unfold

/-- No item is a name any more. -/
def Settled (names : Node → Item → Prop) (items : List Item) : Prop :=
  ∀ item ∈ items, ∀ node, ¬ names node item

/-- What an item stands for, told by the graph of the nodes. -/
structure Unfolding (leads : Node → Node → Prop) (own names : Node → Item → Prop)
    (unfold : Item → List Item) : Prop where
  mem_name_iff : ∀ {node name}, names node name → ∀ item,
    item ∈ unfold name ↔ own node item ∨ ∃ next, leads node next ∧ names next item
  own_kept : ∀ {node item}, own node item → unfold item = [item]
  own_not_name : ∀ {node item}, own node item → ∀ other, ¬ names other item
  named : ∀ {node next}, leads node next → ∃ name, names next name

/-!
# Counting steps
-/

theorem reflTransGen_iff_leadsBy {leads : Node → Node → Prop} {a b : Node} :
    ReflTransGen leads a b ↔ ∃ steps, LeadsBy leads steps a b := by
  constructor
  · intro hpath
    induction hpath with
    | refl => exact ⟨0, rfl⟩
    | tail _ hlast ih =>
        rcases ih with ⟨steps, hsteps⟩
        exact ⟨steps + 1, _, hsteps, hlast⟩
  · intro hsteps
    rcases hsteps with ⟨steps, hsteps⟩
    induction steps generalizing b with
    | zero =>
        rw [LeadsBy] at hsteps
        rw [hsteps]
    | succ steps ih =>
        rcases hsteps with ⟨mid, hmid, hlast⟩
        exact (ih hmid).tail hlast

theorem LeadsBy.exists_of_le {leads : Node → Node → Prop} {steps fewer : Nat} {a b : Node}
    (h : LeadsBy leads steps a b) (hle : fewer ≤ steps) : ∃ mid, LeadsBy leads fewer a mid := by
  induction steps generalizing b with
  | zero =>
      rw [Nat.eq_zero_of_le_zero hle]
      exact ⟨b, h⟩
  | succ steps ih =>
      rcases Nat.le_or_eq_of_le_succ hle with hless | hsame
      · rcases h with ⟨mid, hmid, _⟩
        exact ih hmid hless
      · rw [hsame]
        exact ⟨b, h⟩

/-- A path of several steps begins with one of them. -/
theorem LeadsBy.exists_first {leads : Node → Node → Prop} {steps : Nat} {a b : Node}
    (h : LeadsBy leads (steps + 1) a b) : ∃ next, leads a next ∧ LeadsBy leads steps next b := by
  induction steps generalizing b with
  | zero =>
      rcases h with ⟨mid, hmid, hlast⟩
      rw [LeadsBy] at hmid
      rw [hmid]
      exact ⟨b, hlast, rfl⟩
  | succ steps ih =>
      rcases h with ⟨mid, hmid, hlast⟩
      rcases ih hmid with ⟨next, hfirst, hrest⟩
      exact ⟨next, hfirst, mid, hrest, hlast⟩

theorem LeadsBy.swap {leads : Node → Node → Prop} {steps : Nat} {a b : Node}
    (h : LeadsBy leads steps a b) : LeadsBy (Function.swap leads) steps b a := by
  induction steps generalizing a with
  | zero => exact Eq.symm h
  | succ steps ih =>
      rcases h.exists_first with ⟨next, hfirst, hrest⟩
      exact ⟨next, ih hrest, hfirst⟩

theorem LeadsBy.exists_chain {leads : Node → Node → Prop} {steps : Nat} {a b : Node}
    (h : LeadsBy leads steps a b) :
    ∃ chain, (a :: chain).IsChain leads ∧ chain.length = steps := by
  induction steps generalizing a with
  | zero => exact ⟨[], List.isChain_singleton a, rfl⟩
  | succ steps ih =>
      rcases h.exists_first with ⟨next, hfirst, hrest⟩
      rcases ih hrest with ⟨chain, hchain, hlength⟩
      refine ⟨next :: chain, List.isChain_cons_cons.mpr ⟨hfirst, hchain⟩, ?_⟩
      rw [List.length_cons, hlength]

/-!
# What the rounds find

After some rounds the items are the own ones of the nodes within that distance, and the
names of the nodes one step further away.
-/

section

variable {leads : Node → Node → Prop} {own names : Node → Item → Prop}
  {unfold : Item → List Item} (h : Unfolding leads own names unfold)

include h

theorem Unfolding.exists_name {steps : Nat} {a b : Node}
    (hsteps : LeadsBy leads (steps + 1) a b) : ∃ name, names b name := by
  rcases hsteps with ⟨_, _, hlast⟩
  exact h.named hlast

theorem Unfolding.mem_iterate_iff {start : Node} {name : Item} (hname : names start name)
    (rounds : Nat) (item : Item) :
    item ∈ (round unfold)^[rounds] (unfold name) ↔
      (∃ steps node, steps ≤ rounds ∧ LeadsBy leads steps start node ∧ own node item) ∨
        ∃ node, LeadsBy leads (rounds + 1) start node ∧ names node item := by
  induction rounds generalizing item with
  | zero =>
      rw [Function.iterate_zero_apply, h.mem_name_iff hname]
      constructor
      · intro hitem
        rcases hitem with hown | ⟨next, hlead, hnext⟩
        · exact Or.inl ⟨0, start, Nat.le_refl 0, rfl, hown⟩
        · exact Or.inr ⟨next, ⟨start, rfl, hlead⟩, hnext⟩
      · intro hfound
        rcases hfound with ⟨steps, node, hle, hsteps, hown⟩ | ⟨node, ⟨mid, hmid, hlead⟩, hnode⟩
        · rw [Nat.eq_zero_of_le_zero hle, LeadsBy] at hsteps
          rw [hsteps]
          exact Or.inl hown
        · rw [LeadsBy] at hmid
          rw [hmid]
          exact Or.inr ⟨node, hlead, hnode⟩
  | succ rounds ih =>
      rw [Function.iterate_succ_apply', round, List.mem_flatMap]
      constructor
      · intro hitem
        rcases hitem with ⟨before, hbefore, hitem⟩
        rcases (ih before).mp hbefore with ⟨steps, node, hle, hsteps, hown⟩ | ⟨node, hsteps, hnode⟩
        · rw [h.own_kept hown, List.mem_singleton] at hitem
          rw [hitem]
          exact Or.inl ⟨steps, node, Nat.le_succ_of_le hle, hsteps, hown⟩
        · rcases (h.mem_name_iff hnode item).mp hitem with hown | ⟨next, hlead, hnext⟩
          · exact Or.inl ⟨rounds + 1, node, Nat.le_refl _, hsteps, hown⟩
          · exact Or.inr ⟨next, ⟨node, hsteps, hlead⟩, hnext⟩
      · intro hfound
        rcases hfound with ⟨steps, node, hle, hsteps, hown⟩ | ⟨node, ⟨mid, hmid, hlead⟩, hnode⟩
        · rcases Nat.le_or_eq_of_le_succ hle with hearlier | hlast
          · refine ⟨item, (ih item).mpr (Or.inl ⟨steps, node, hearlier, hsteps, hown⟩), ?_⟩
            rw [h.own_kept hown]
            exact List.mem_singleton_self item
          · rw [hlast] at hsteps
            rcases h.exists_name hsteps with ⟨before, hbefore⟩
            refine ⟨before, (ih before).mpr (Or.inr ⟨node, hsteps, hbefore⟩), ?_⟩
            exact (h.mem_name_iff hbefore item).mpr (Or.inl hown)
        · rcases h.exists_name hmid with ⟨before, hbefore⟩
          refine ⟨before, (ih before).mpr (Or.inr ⟨mid, hmid, hbefore⟩), ?_⟩
          exact (h.mem_name_iff hbefore item).mpr (Or.inr ⟨node, hlead, hnode⟩)

/-- As many rounds suffice as bound the length of the paths. -/
theorem Unfolding.settled_of_bound {start : Node} {name : Item} (hname : names start name)
    {bound : Nat} (hbound : ∀ steps node, LeadsBy leads steps start node → steps ≤ bound) :
    Settled names ((round unfold)^[bound] (unfold name)) := by
  intro item hitem other hother
  rcases (h.mem_iterate_iff hname bound item).mp hitem with
    ⟨_, _, _, _, hown⟩ | ⟨node, hsteps, _⟩
  · exact h.own_not_name hown other hother
  · exact Nat.not_succ_le_self bound (hbound _ node hsteps)

/-- Once no names are left, the items are the own ones of everything that can be reached. -/
theorem Unfolding.mem_iff_of_settled {start : Node} {name : Item} (hname : names start name)
    {rounds : Nat} (hsettled : Settled names ((round unfold)^[rounds] (unfold name)))
    (item : Item) :
    item ∈ (round unfold)^[rounds] (unfold name) ↔
      ∃ node, ReflTransGen leads start node ∧ own node item := by
  have hnone : ∀ node, ¬ LeadsBy leads (rounds + 1) start node := by
    intro node hsteps
    rcases h.exists_name hsteps with ⟨left, hleft⟩
    have hmem := (h.mem_iterate_iff hname rounds left).mpr (Or.inr ⟨node, hsteps, hleft⟩)
    exact hsettled left hmem node hleft
  rw [h.mem_iterate_iff hname]
  constructor
  · intro hfound
    rcases hfound with ⟨steps, node, _, hsteps, hown⟩ | ⟨node, hsteps, _⟩
    · exact ⟨node, reflTransGen_iff_leadsBy.mpr ⟨steps, hsteps⟩, hown⟩
    · exact absurd hsteps (hnone node)
  · intro hreached
    rcases hreached with ⟨node, hpath, hown⟩
    rcases reflTransGen_iff_leadsBy.mp hpath with ⟨steps, hsteps⟩
    refine Or.inl ⟨steps, node, ?_, hsteps, hown⟩
    apply Nat.le_of_not_lt
    intro hfurther
    rcases hsteps.exists_of_le hfurther with ⟨mid, hmid⟩
    exact hnone mid hmid

end

end Rounds
end VocabTypes
