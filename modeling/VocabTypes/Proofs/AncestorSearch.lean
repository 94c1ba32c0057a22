import Mathlib.Algebra.Order.BigOperators.Group.List
import Mathlib.Algebra.Order.Ring.Nat
import VocabTypes.Proofs.CheckedListing

/-!
# The search for an ancestor

## How far it goes

Whether an entity is above another one is found by a loop over a stack of ids.  What keeps
it short is that the parents of an entity are pushed once only: every id on the stack, and
every id taken from it, is the start or stands for a link to a parent of an entity that has
been expanded.  So the loop ends on every graph whose parents are registered, whatever
cycles, diamonds and repeated links it has.
-/

namespace VocabTypes

open Relation

namespace Registry

/-!
# Links
-/

/-- The number of links from some entities to parents, repeated links included. -/
def linksFrom (r : Registry) (ids : List EntityId) : Nat :=
  (ids.map fun id => (r.parentsOf id).length).sum

/-- The number of all links to parents. -/
def linkCount (r : Registry) : Nat :=
  (r.entities.map fun e => e.parents.length).sum

theorem linksFrom_cons (r : Registry) (id : EntityId) (ids : List EntityId) :
    r.linksFrom (id :: ids) = (r.parentsOf id).length + r.linksFrom ids := by
  rw [linksFrom, List.map_cons, List.sum_cons, linksFrom]

theorem linksFrom_eq_of_perm {r : Registry} {ids others : List EntityId} (h : ids.Perm others) :
    r.linksFrom ids = r.linksFrom others :=
  (h.map _).sum_eq

theorem linksFrom_range (r : Registry) : r.linksFrom (List.range r.size) = r.linkCount := by
  have hentities : (List.range r.size).map r.entity? = r.entities.map some := by
    rw [← map_some_resolve fun id hid => List.mem_range.mp hid, resolve_range]
  have hlengths : ((List.range r.size).map fun id => (r.parentsOf id).length) =
      ((List.range r.size).map r.entity?).map fun e? =>
        ((e?.map Entity.parents).getD []).length := by
    rw [List.map_map]
    rfl
  rw [linksFrom, hlengths, hentities, List.map_map]
  rfl

/-- Different entities of the table have no more links than the table. -/
theorem linksFrom_le {r : Registry} {ids : List EntityId} (hnodup : ids.Nodup)
    (hissued : ∀ id ∈ ids, id < r.size) : r.linksFrom ids ≤ r.linkCount := by
  have hsubset : ids ⊆ List.range r.size := fun id hid => List.mem_range.mpr (hissued id hid)
  rcases hnodup.subperm hsubset with ⟨chosen, hperm, hsublist⟩
  rw [← linksFrom_eq_of_perm hperm, ← linksFrom_range]
  exact (hsublist.map _).sum_le_sum fun _ _ => Nat.zero_le _

/-!
# The search of the registry

What is left to do is bounded by the stack together with the links of those entities that
have not been expanded; taking an id from the stack pays for one of them.
-/

theorem length_visits_le (r : Registry) (stop : EntityId → Bool) (unseen stack : List EntityId) :
    (Search.visits r.parentsOf stop unseen stack).length ≤ stack.length + r.linksFrom unseen := by
  induction unseen, stack using Search.visits.induct r.parentsOf stop with
  | case1 unseen =>
      rw [Search.visits]
      exact Nat.zero_le _
  | case2 unseen top stack hstop =>
      rw [Search.visits, if_pos hstop, List.length_singleton, List.length_cons]
      omega
  | case3 unseen top stack hstop hunseen ih =>
      have hlinks := linksFrom_eq_of_perm (r := r) (List.perm_cons_erase hunseen)
      rw [linksFrom_cons] at hlinks
      rw [List.length_append] at ih
      rw [Search.visits, if_neg hstop, dif_pos hunseen, List.length_cons, List.length_cons]
      omega
  | case4 unseen top stack hstop hunseen ih =>
      rw [Search.visits, if_neg hstop, dif_neg hunseen, List.length_cons, List.length_cons]
      omega

theorem length_climb_le (r : Registry) (stop : EntityId → Bool) (start : List EntityId) :
    (r.climb stop start).length ≤ start.length + r.linkCount := by
  rw [← linksFrom_range]
  exact r.length_visits_le stop (List.range r.size) start

end Registry

/-!
# The loop

The loop takes the id that was pushed last, remembers which ids it has expanded, and reads
the parents of an id from the table, which fails where nothing is registered.
-/

/-- Where the loop stands. -/
structure Ascent where
  /-- The ids that are still to be looked at, the next one last. -/
  stack : List EntityId
  /-- The ids whose parents have been pushed. -/
  seen : List EntityId
  /-- The ids that have been taken from the stack, the latest first. -/
  popped : List EntityId

namespace Ascent

def start (id : EntityId) : Ascent :=
  { stack := [id], seen := [], popped := [] }

/-- What one turn of the loop leads to. -/
inductive Turn where
  | finished (found : Bool) (last : Ascent)
  | continued (next : Ascent)

def Turn.state : Turn → Ascent
  | finished _ last => last
  | continued next => next

/-- One turn of the loop in search of `ancestor`. -/
def turn? (r : Registry) (ancestor : EntityId) (s : Ascent) : Option Turn :=
  match s.stack.getLast? with
  | none => some (.finished false s)
  | some id =>
      let rest := s.stack.dropLast
      let popped := id :: s.popped
      if id = ancestor then some (.finished true ⟨rest, s.seen, popped⟩)
      else if id ∈ s.seen then some (.continued ⟨rest, s.seen, popped⟩)
      else
        match r.entity? id with
        | none => none
        | some e => some (.continued ⟨rest ++ e.parents, id :: s.seen, popped⟩)

/-- The answer of the loop and where it ends, if it ends within some number of turns. -/
def run? (r : Registry) (ancestor : EntityId) : Nat → Ascent → Option (Bool × Ascent)
  | 0, _ => none
  | turns + 1, s =>
      match turn? r ancestor s with
      | none => none
      | some (.finished found last) => some (found, last)
      | some (.continued next) => run? r ancestor turns next

/-- What a turn does, with what has been checked for it. -/
inductive Moves (r : Registry) (ancestor : EntityId) : Ascent → Turn → Prop where
  | exhausted {seen popped : List EntityId} :
      Moves r ancestor ⟨[], seen, popped⟩ (.finished false ⟨[], seen, popped⟩)
  | found {rest seen popped : List EntityId} :
      Moves r ancestor ⟨rest ++ [ancestor], seen, popped⟩
        (.finished true ⟨rest, seen, ancestor :: popped⟩)
  | skip {id : EntityId} {rest seen popped : List EntityId} (other : id ≠ ancestor)
      (known : id ∈ seen) :
      Moves r ancestor ⟨rest ++ [id], seen, popped⟩ (.continued ⟨rest, seen, id :: popped⟩)
  | expand {id : EntityId} {e : Entity} {rest seen popped : List EntityId}
      (other : id ≠ ancestor) (fresh : id ∉ seen) (issued : r.entity? id = some e) :
      Moves r ancestor ⟨rest ++ [id], seen, popped⟩
        (.continued ⟨rest ++ e.parents, id :: seen, id :: popped⟩)

variable {r : Registry} {ancestor id : EntityId} {s : Ascent} {turn : Turn}

theorem turn?_concat (r : Registry) (ancestor id : EntityId) (rest seen popped : List EntityId) :
    turn? r ancestor ⟨rest ++ [id], seen, popped⟩ =
      if id = ancestor then some (.finished true ⟨rest, seen, id :: popped⟩)
      else if id ∈ seen then some (.continued ⟨rest, seen, id :: popped⟩)
      else (r.entity? id).map fun e =>
        .continued ⟨rest ++ e.parents, id :: seen, id :: popped⟩ := by
  simp only [turn?, List.getLast?_concat, List.dropLast_concat]
  cases r.entity? id with
  | none => rfl
  | some e => rfl

/-- A loop with registered ids only on its stack makes a turn. -/
theorem exists_turn (ancestor : EntityId) (hpending : ∀ id ∈ s.stack, id < r.size) :
    ∃ turn, turn? r ancestor s = some turn ∧ Moves r ancestor s turn := by
  rcases s with ⟨stack, seen, popped⟩
  rcases List.eq_nil_or_concat' stack with rfl | ⟨rest, id, rfl⟩
  · exact ⟨_, rfl, Moves.exhausted⟩
  · rcases (r.lt_size_iff id).mp (hpending id (by simp)) with ⟨e, he⟩
    rw [turn?_concat, he]
    by_cases hfound : id = ancestor
    · rw [if_pos hfound, hfound]
      exact ⟨_, rfl, Moves.found⟩
    · rw [if_neg hfound]
      by_cases hseen : id ∈ seen
      · rw [if_pos hseen]
        exact ⟨_, rfl, Moves.skip hfound hseen⟩
      · rw [if_neg hseen]
        exact ⟨_, rfl, Moves.expand hfound hseen he⟩

/-!
# Balance

What has been taken from the stack or is still on it was pushed: the start, and a parent for
each link of an entity that has been expanded.
-/

structure Balanced (r : Registry) (s : Ascent) : Prop where
  pending : ∀ id ∈ s.stack, id < r.size
  issued : ∀ id ∈ s.seen, id < r.size
  nodup : s.seen.Nodup
  count : s.popped.length + s.stack.length = 1 + r.linksFrom s.seen

theorem balanced_start (hid : id < r.size) : (start id).Balanced r where
  pending := by
    intro other hother
    rw [List.mem_singleton.mp hother]
    exact hid
  issued := by
    intro other hother
    cases hother
  nodup := List.nodup_nil
  count := rfl

theorem Balanced.length_popped_le (h : s.Balanced r) : s.popped.length ≤ 1 + r.linkCount := by
  have hlinks := Registry.linksFrom_le h.nodup h.issued
  have hcount := h.count
  omega

section

variable {rest seen popped : List EntityId}

/-- An id moves from the stack to those that have been taken from it. -/
theorem Balanced.pop (h : Balanced r ⟨rest ++ [id], seen, popped⟩) :
    Balanced r ⟨rest, seen, id :: popped⟩ where
  pending := fun other hother => h.pending other (List.mem_append_left _ hother)
  issued := h.issued
  nodup := h.nodup
  count := by
    have hcount := h.count
    simp only [List.length_append, List.length_singleton] at hcount
    simp only [List.length_cons]
    omega

/-- A new entity brings one id for each of its links. -/
theorem Balanced.push (hparents : ∀ e ∈ r.entities, ∀ parent ∈ e.parents, parent < r.size)
    (h : Balanced r ⟨rest, seen, popped⟩) (hfresh : id ∉ seen) {e : Entity}
    (he : r.entity? id = some e) : Balanced r ⟨rest ++ e.parents, id :: seen, popped⟩ where
  pending := by
    intro other hother
    rcases List.mem_append.mp hother with hrest | hparent
    · exact h.pending other hrest
    · exact hparents e (Registry.mem_entities_iff.mpr ⟨id, he⟩) other hparent
  issued := by
    intro other hother
    rcases List.mem_cons.mp hother with rfl | hseen
    · exact (r.lt_size_iff other).mpr ⟨e, he⟩
    · exact h.issued other hseen
  nodup := List.nodup_cons.mpr ⟨hfresh, h.nodup⟩
  count := by
    have hcount := h.count
    simp only [List.length_append, Registry.linksFrom_cons,
      Registry.parentsOf_of_entity? he] at hcount ⊢
    omega

end

theorem Balanced.move (hparents : ∀ e ∈ r.entities, ∀ parent ∈ e.parents, parent < r.size)
    (h : s.Balanced r) (hmove : Moves r ancestor s turn) : turn.state.Balanced r := by
  cases hmove with
  | exhausted => exact h
  | found => exact h.pop
  | skip _ _ => exact h.pop
  | expand _ hfresh he => exact h.pop.push hparents hfresh he

/-!
# What has been ruled out

The ids that have been expanded are closed under steps to a parent up to the stack, and the
ancestor is not among them.  When the stack is empty nothing is left to be reached.
-/

structure RulesOut (r : Registry) (ancestor id : EntityId) (s : Ascent) : Prop where
  reached : ∀ pending ∈ s.stack, ReflTransGen r.IsParent id pending
  started : id ∈ s.stack ∨ id ∈ s.seen
  closed : ∀ known ∈ s.seen, ∀ parent, r.IsParent known parent →
    parent ∈ s.stack ∨ parent ∈ s.seen
  missed : ancestor ∉ s.seen

theorem rulesOut_start (r : Registry) (ancestor id : EntityId) :
    (start id).RulesOut r ancestor id where
  reached := by
    intro pending hpending
    rw [List.mem_singleton.mp hpending]
  started := Or.inl (List.mem_singleton_self id)
  closed := by
    intro known hknown
    cases hknown
  missed := List.not_mem_nil

/-- Everything that is reached has been expanded, or can be reached from the stack. -/
theorem RulesOut.not_reaches (h : s.RulesOut r ancestor id) (hempty : s.stack = []) :
    ¬ ReflTransGen r.IsParent id ancestor := by
  have hseen {above : EntityId} (hpath : ReflTransGen r.IsParent id above) :
      above ∈ s.seen := by
    induction hpath with
    | refl => simpa [hempty] using h.started
    | tail _ hparent ih => simpa [hempty] using h.closed _ ih _ hparent
  intro hpath
  exact h.missed (hseen hpath)

section

variable {rest stack seen after popped : List EntityId} {top pending : EntityId}

/-- What has been pushed stays on the stack or has been expanded, also what was just taken. -/
theorem kept_of_popped (hrest : rest ⊆ stack) (hseen : seen ⊆ after) (htop : top ∈ after)
    (h : pending ∈ rest ++ [top] ∨ pending ∈ seen) : pending ∈ stack ∨ pending ∈ after := by
  rcases h with hstack | hknown
  · rcases List.mem_append.mp hstack with hmem | hlast
    · exact Or.inl (hrest hmem)
    · rw [List.mem_singleton.mp hlast]
      exact Or.inr htop
  · exact Or.inr (hseen hknown)

theorem RulesOut.skip (h : RulesOut r ancestor id ⟨rest ++ [top], seen, popped⟩)
    (hknown : top ∈ seen) : RulesOut r ancestor id ⟨rest, seen, top :: popped⟩ where
  reached := fun pending hpending => h.reached pending (List.mem_append_left _ hpending)
  started := kept_of_popped (List.Subset.refl rest) (List.Subset.refl seen) hknown h.started
  closed := by
    intro known hseen parent hparent
    exact kept_of_popped (List.Subset.refl rest) (List.Subset.refl seen) hknown
      (h.closed known hseen parent hparent)
  missed := h.missed

theorem RulesOut.expand (h : RulesOut r ancestor id ⟨rest ++ [top], seen, popped⟩)
    (hother : top ≠ ancestor) {e : Entity} (he : r.entity? top = some e) :
    RulesOut r ancestor id ⟨rest ++ e.parents, top :: seen, top :: popped⟩ := by
  have hparents {parent : EntityId} : r.IsParent top parent ↔ parent ∈ e.parents := by
    rw [Registry.IsParent, Registry.parentsOf_of_entity? he]
  have hkept {pending : EntityId} (hpending : pending ∈ rest ++ [top] ∨ pending ∈ seen) :
      pending ∈ rest ++ e.parents ∨ pending ∈ top :: seen :=
    kept_of_popped (List.subset_append_left rest e.parents) (List.subset_cons_self top seen)
      List.mem_cons_self hpending
  constructor
  · intro pending hpending
    rcases List.mem_append.mp hpending with hrest | hparent
    · exact h.reached pending (List.mem_append_left _ hrest)
    · exact (h.reached top (by simp)).tail (hparents.mpr hparent)
  · exact hkept h.started
  · intro known hknown parent hparent
    rcases List.mem_cons.mp hknown with rfl | hseen
    · exact Or.inl (List.mem_append_right _ (hparents.mp hparent))
    · exact hkept (h.closed known hseen parent hparent)
  · intro hmem
    rcases List.mem_cons.mp hmem with rfl | hseen
    · exact hother rfl
    · exact h.missed hseen

end

theorem RulesOut.move {next : Ascent} (h : s.RulesOut r ancestor id)
    (hmove : Moves r ancestor s (.continued next)) : next.RulesOut r ancestor id := by
  cases hmove with
  | skip _ hknown => exact h.skip hknown
  | expand hother _ he => exact h.expand hother he

/-- The answer that ends the loop is that of the search of the registry. -/
theorem RulesOut.answer {found : Bool} {last : Ascent} (h : s.RulesOut r ancestor id)
    (hmove : Moves r ancestor s (.finished found last)) : found = r.subsumes ancestor id := by
  rw [Bool.eq_iff_iff, Registry.subsumes_iff]
  cases hmove with
  | exhausted =>
      constructor
      · intro hfound
        cases hfound
      · intro hpath
        exact absurd hpath (h.not_reaches rfl)
  | found =>
      constructor
      · intro _
        exact h.reached ancestor (by simp)
      · intro _
        rfl

/-!
# The whole loop

Every turn but the last takes an id from the stack, and no more ids are taken than balance
allows.
-/

theorem length_popped_of_moves {next : Ascent} (hmove : Moves r ancestor s (.continued next)) :
    next.popped.length = s.popped.length + 1 := by
  cases hmove with
  | skip _ _ => rfl
  | expand _ _ _ => rfl

theorem run?_eq (hparents : ∀ e ∈ r.entities, ∀ parent ∈ e.parents, parent < r.size)
    (hbalanced : s.Balanced r) (hruled : s.RulesOut r ancestor id) {turns : Nat}
    (hturns : r.linkCount + 2 ≤ turns + s.popped.length) :
    ∃ last, run? r ancestor turns s = some (r.subsumes ancestor id, last) ∧ last.Balanced r := by
  induction turns generalizing s with
  | zero =>
      have hpopped := hbalanced.length_popped_le
      omega
  | succ turns ih =>
      rcases exists_turn ancestor hbalanced.pending with ⟨turn, hturn, hmove⟩
      have hafter := hbalanced.move hparents hmove
      rw [run?, hturn]
      cases turn with
      | finished found last =>
          rw [hruled.answer hmove]
          exact ⟨last, rfl, hafter⟩
      | continued next =>
          have hpopped := length_popped_of_moves hmove
          exact ih hafter (hruled.move hmove) (by omega)

end Ascent

namespace Registry

/--
The search for an ancestor, on a table of entities whose parents are in the table.

It answers whether the ancestor is the entity itself or is reached by steps to a parent, and
visits no more ids than there are links to parents, and the start.  The loop with its stack
and its set of expanded ids ends with this answer and looks nothing up that is not there.
It pushes the parents of no entity twice: what it takes from the stack or leaves there is
the start and one id for each link of the entities that it has expanded.
-/
theorem ancestor_search_is_exact {r : Registry}
    (hparents : ∀ e ∈ r.entities, ∀ parent ∈ e.parents, parent < r.size)
    (ancestor : EntityId) {id : EntityId} (hid : id < r.size) :
    (r.subsumes ancestor id = true ↔ ancestor = id ∨ TransGen r.IsParent id ancestor) ∧
    (r.climb (fun node => node == ancestor) [id]).length ≤ 1 + r.linkCount ∧
    ∀ turns, r.linkCount + 2 ≤ turns →
      ∃ last, Ascent.run? r ancestor turns (.start id) = some (r.subsumes ancestor id, last) ∧
        last.popped.length ≤ 1 + r.linkCount ∧ last.seen.Nodup ∧
        last.popped.length + last.stack.length = 1 + r.linksFrom last.seen := by
  refine ⟨?_, r.length_climb_le _ [id], ?_⟩
  · rw [subsumes_iff, reflTransGen_iff_eq_or_transGen]
  · intro turns hturns
    rcases Ascent.run?_eq hparents (Ascent.balanced_start hid) (Ascent.rulesOut_start r ancestor id)
      hturns with ⟨last, hrun, hbalanced⟩
    exact ⟨last, hrun, hbalanced.length_popped_le, hbalanced.nodup, hbalanced.count⟩

/-- A table with a cycle, a diamond in it and a repeated link, and an entity apart from it. -/
def windingTable : Registry :=
  { empty with
    entities := [[1, 2, 1], [3], [3], [0], []].map fun parents =>
      { Entity.bare (.ofUrl "s:Node") .rdfsClass false with parents } }

theorem ancestor_search_in_windingTable :
    windingTable.linkCount = 6 ∧ TransGen windingTable.IsParent 1 1 ∧
      (∀ e ∈ windingTable.entities, ∀ parent ∈ e.parents, parent < windingTable.size) ∧
      windingTable.subsumes 3 0 = true ∧ windingTable.subsumes 4 0 = false ∧
      ∃ last, Ascent.run? windingTable 4 8 (.start 0) = some (false, last) ∧
        last.popped = [1, 3, 2, 0, 3, 1, 0] ∧ last.popped.length ≤ 7 ∧ last.seen.Nodup := by
  have hparents : ∀ e ∈ windingTable.entities, ∀ parent ∈ e.parents,
      parent < windingTable.size := by
    decide
  have hlinks : windingTable.linkCount = 6 := by
    decide
  have hstart : 0 < windingTable.size := by
    decide
  have hstep (child parent : EntityId) (h : parent ∈ windingTable.parentsOf child) :
      TransGen windingTable.IsParent child parent := TransGen.single h
  have hthree : TransGen windingTable.IsParent 0 3 :=
    (hstep 0 1 (by decide)).trans (hstep 1 3 (by decide))
  have hcycle : TransGen windingTable.IsParent 1 1 :=
    ((hstep 1 3 (by decide)).trans (hstep 3 0 (by decide))).trans (hstep 0 1 (by decide))
  have habove := (ancestor_search_is_exact hparents 3 hstart).left.mpr (Or.inr hthree)
  rcases ancestor_search_is_exact hparents 4 hstart with ⟨_, _, hloop⟩
  rcases hloop 8 (by rw [hlinks]) with ⟨last, hrun, hpopped, hnodup, _⟩
  have hvalue : (Ascent.run? windingTable 4 8 (.start 0)).map (fun p => (p.1, p.2.popped)) =
      some (false, [1, 3, 2, 0, 3, 1, 0]) := by
    decide
  rw [hrun, Option.map_some, Option.some.injEq, Prod.mk.injEq] at hvalue
  have hanswer : windingTable.subsumes 4 0 = false := hvalue.left
  rw [hanswer] at hrun
  rw [hlinks] at hpopped
  exact ⟨hlinks, hcycle, hparents, habove, hanswer, last, hrun, hvalue.right, hpopped, hnodup⟩

end Registry
end VocabTypes
