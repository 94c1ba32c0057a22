import VocabTypes.Registry.Basic

/-!
# Ancestry

## Ancestors of an entity

The parents of an entity, their parents and so on are found by one search, which
answers what an entity inherits and whether a new parent would close a cycle.
-/

namespace VocabTypes

/-!
# Search in a finite graph

A depth-first search keeps a stack of nodes to visit and the nodes that it has
not expanded yet.  Every expansion uses one of the latter up, so the search ends
on every graph, cycles and repeated edges included.
-/

namespace Search

/--
The nodes that the search takes from the stack, in that order.

A node for which `stop` holds ends the search and is the last one listed.  A node
outside `unseen` has been expanded before, or does not belong to the graph, and
leads nowhere.
-/
def visits [DecidableEq α] (next : α → List α) (stop : α → Bool) :
    (unseen stack : List α) → List α
  | _, [] => []
  | unseen, node :: stack =>
      if stop node then
        [node]
      else if _h : node ∈ unseen then
        node :: visits next stop (unseen.erase node) (next node ++ stack)
      else
        node :: visits next stop unseen stack
termination_by unseen stack => (unseen.length, stack.length)
decreasing_by
  · apply Prod.Lex.left
    have := List.length_pos_of_mem _h
    rw [List.length_erase_of_mem _h]
    omega
  · apply Prod.Lex.right
    simp

end Search

/-!
# The search along parents
-/

namespace Registry

def parentsOf (r : Registry) (id : EntityId) : List EntityId :=
  ((r.entity? id).map Entity.parents).getD []

/-- The ids that a search along parents visits from `start` until `stop` holds. -/
def climb (r : Registry) (stop : EntityId → Bool) (start : List EntityId) : List EntityId :=
  Search.visits r.parentsOf stop (List.range r.size) start

/-- Whether `ancestor` is `id` itself, or can be reached from it by steps to a parent. -/
def subsumes (r : Registry) (ancestor id : EntityId) : Bool :=
  ancestor ∈ r.climb (fun node => node == ancestor) [id]

/-- The entities that can be reached from `e` by one or more steps to a parent. -/
def strictAncestors (r : Registry) (e : Entity) : List Entity :=
  r.resolve (r.climb (fun _ => false) e.parents)

/-- Whether some strict ancestor of `e` is a builtin data type. -/
def extendsBuiltin (r : Registry) (e : Entity) : Bool :=
  (r.strictAncestors e).any fun ancestor => ancestor.kind.isBuiltin

/-- Whether `e` or some strict ancestor of it was registered as allowing a bare string. -/
def admitsString (r : Registry) (e : Entity) : Bool :=
  e.allowString || (r.strictAncestors e).any fun ancestor => ancestor.allowString

end Registry
end VocabTypes
