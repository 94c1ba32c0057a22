import Mathlib.Logic.Relation
import VocabTypes.Registry.Ancestry

/-!
# Exactness of the search

## What a search lists

A search lists only nodes that can be reached from its stack.  Unless it has been
stopped it lists all of them: what it lists contains the stack and is closed under
steps out of the nodes that it was allowed to expand.
-/

namespace VocabTypes
namespace Search

open Relation

variable {α : Type}

def Leads (next : α → List α) (a b : α) : Prop :=
  b ∈ next a

/-!
# Closed lists

The nodes that have been expanded before are not expanded again, so closure is
claimed for the unseen ones only.  An expanded node leaves the unseen ones, which
is why the two cases of the step differ.
-/

/-- A list that holds the stack and all steps out of those of its nodes that were unseen. -/
structure Closed (next : α → List α) (unseen stack listed : List α) : Prop where
  stack_listed : ∀ node ∈ stack, node ∈ listed
  next_listed : ∀ node ∈ listed, node ∈ unseen → ∀ target ∈ next node, target ∈ listed

theorem Closed.skip {next : α → List α} {unseen stack listed : List α} {top : α}
    (h : Closed next unseen stack listed) (hseen : top ∉ unseen) :
    Closed next unseen (top :: stack) (top :: listed) := by
  constructor
  · intro node hnode
    rcases List.mem_cons.mp hnode with rfl | hstack
    · exact List.mem_cons_self
    · exact List.mem_cons_of_mem top (h.stack_listed node hstack)
  · intro node hnode hunseen target htarget
    have hne : node ≠ top := by
      intro hsame
      exact hseen (hsame ▸ hunseen)
    have hlisted : node ∈ listed := (List.mem_cons.mp hnode).resolve_left hne
    exact List.mem_cons_of_mem top (h.next_listed node hlisted hunseen target htarget)

theorem Closed.mem_of_reaches {next : α → List α} {unseen stack listed : List α}
    (h : Closed next unseen stack listed)
    (hunseen : ∀ node target, target ∈ next node → node ∈ unseen)
    {start node : α} (hstart : start ∈ stack)
    (hpath : ReflTransGen (Leads next) start node) : node ∈ listed := by
  induction hpath with
  | refl => exact h.stack_listed start hstart
  | tail _ hstep ih => exact h.next_listed _ ih (hunseen _ _ hstep) _ hstep

variable [DecidableEq α]

theorem Closed.expand {next : α → List α} {unseen stack listed : List α} {top : α}
    (h : Closed next (unseen.erase top) (next top ++ stack) listed) :
    Closed next unseen (top :: stack) (top :: listed) := by
  constructor
  · intro node hnode
    rcases List.mem_cons.mp hnode with rfl | hstack
    · exact List.mem_cons_self
    · exact List.mem_cons_of_mem top
        (h.stack_listed node (List.mem_append_right (next top) hstack))
  · intro node hnode hunseen target htarget
    apply List.mem_cons_of_mem top
    by_cases hsame : node = top
    · subst hsame
      exact h.stack_listed target (List.mem_append_left stack htarget)
    · have hlisted : node ∈ listed := (List.mem_cons.mp hnode).resolve_left hsame
      exact h.next_listed node hlisted ((List.mem_erase_of_ne hsame).mpr hunseen) target htarget

/-!
# Listed nodes and reachable nodes
-/

theorem mem_visits_reaches {next : α → List α} {stop : α → Bool} {unseen stack : List α}
    {node : α} (hnode : node ∈ visits next stop unseen stack) :
    ∃ start ∈ stack, ReflTransGen (Leads next) start node := by
  induction unseen, stack using visits.induct next stop with
  | case1 unseen =>
      rw [visits] at hnode
      cases hnode
  | case2 unseen top stack hstop =>
      rw [visits, if_pos hstop] at hnode
      rw [List.mem_singleton.mp hnode]
      exact ⟨top, List.mem_cons_self, ReflTransGen.refl⟩
  | case3 unseen top stack hstop hunseen ih =>
      rw [visits, if_neg hstop, dif_pos hunseen] at hnode
      rcases List.mem_cons.mp hnode with rfl | hrest
      · exact ⟨node, List.mem_cons_self, ReflTransGen.refl⟩
      · rcases ih hrest with ⟨start, hstart, hpath⟩
        rcases List.mem_append.mp hstart with hnext | hstack
        · exact ⟨top, List.mem_cons_self, ReflTransGen.head hnext hpath⟩
        · exact ⟨start, List.mem_cons_of_mem top hstack, hpath⟩
  | case4 unseen top stack hstop hunseen ih =>
      rw [visits, if_neg hstop, dif_neg hunseen] at hnode
      rcases List.mem_cons.mp hnode with rfl | hrest
      · exact ⟨node, List.mem_cons_self, ReflTransGen.refl⟩
      · rcases ih hrest with ⟨start, hstart, hpath⟩
        exact ⟨start, List.mem_cons_of_mem top hstart, hpath⟩

theorem visits_stopped_or_closed (next : α → List α) (stop : α → Bool)
    (unseen stack : List α) :
    (∃ node ∈ visits next stop unseen stack, stop node = true) ∨
      Closed next unseen stack (visits next stop unseen stack) := by
  induction unseen, stack using visits.induct next stop with
  | case1 unseen =>
      rw [visits]
      exact Or.inr ⟨fun _ h => h, fun _ h => by cases h⟩
  | case2 unseen top stack hstop =>
      rw [visits, if_pos hstop]
      exact Or.inl ⟨top, List.mem_cons_self, hstop⟩
  | case3 unseen top stack hstop hunseen ih =>
      rw [visits, if_neg hstop, dif_pos hunseen]
      rcases ih with ⟨node, hnode, hfound⟩ | hclosed
      · exact Or.inl ⟨node, List.mem_cons_of_mem top hnode, hfound⟩
      · exact Or.inr hclosed.expand
  | case4 unseen top stack hstop hunseen ih =>
      rw [visits, if_neg hstop, dif_neg hunseen]
      rcases ih with ⟨node, hnode, hfound⟩ | hclosed
      · exact Or.inl ⟨node, List.mem_cons_of_mem top hnode, hfound⟩
      · exact Or.inr (hclosed.skip hunseen)

/-!
# The two searches

One search looks for everything that can be reached, the other one for a goal.
-/

/-- A search that nothing stops lists what can be reached from the stack. -/
theorem mem_visits_iff {next : α → List α} {unseen stack : List α}
    (hunseen : ∀ node target, target ∈ next node → node ∈ unseen) {node : α} :
    node ∈ visits next (fun _ => false) unseen stack ↔
      ∃ start ∈ stack, ReflTransGen (Leads next) start node := by
  constructor
  · exact mem_visits_reaches
  · intro hreached
    rcases hreached with ⟨start, hstart, hpath⟩
    rcases visits_stopped_or_closed next (fun _ => false) unseen stack with
      ⟨_, _, hfound⟩ | hclosed
    · cases hfound
    · exact hclosed.mem_of_reaches hunseen hstart hpath

/-- A search for a goal lists it exactly when it can be reached from the stack. -/
theorem mem_visits_goal_iff {next : α → List α} {unseen stack : List α}
    (hunseen : ∀ node target, target ∈ next node → node ∈ unseen) {goal : α} :
    goal ∈ visits next (fun node => node == goal) unseen stack ↔
      ∃ start ∈ stack, ReflTransGen (Leads next) start goal := by
  constructor
  · exact mem_visits_reaches
  · intro hreached
    rcases hreached with ⟨start, hstart, hpath⟩
    rcases visits_stopped_or_closed next (fun node => node == goal) unseen stack with
      ⟨node, hnode, hfound⟩ | hclosed
    · rw [eq_of_beq hfound] at hnode
      exact hnode
    · exact hclosed.mem_of_reaches hunseen hstart hpath

end Search
end VocabTypes
