import VocabTypes.TypeExpr.Layout

/-!
# Nodes

## What stands anywhere in a type

A type is made of smaller types: the arms of its unions and intersections, what stands
in its parentheses, and the types of its fields.  A condition on all of them is a
condition on the node itself and on the parts below it.
-/

namespace VocabTypes

/-!
# Induction on the parts
-/

/-- What passes from the parts of a type to the type holds of every type. -/
@[induction_eliminator]
theorem TypeExpr.inductionOnParts {motive : TypeExpr → Prop}
    (reference : ∀ name, motive (.reference name))
    (literal : ∀ value, motive (.literal value))
    (union : ∀ arms, (∀ arm ∈ arms, motive arm) → motive (.union arms))
    (intersection : ∀ arms, (∀ arm ∈ arms, motive arm) → motive (.intersection arms))
    (parenthesized : ∀ inner, motive inner → motive (.parenthesized inner))
    (record : ∀ fields, (∀ field ∈ fields, motive field.type) → motive (.record fields))
    (type : TypeExpr) : motive type :=
  @TypeExpr.rec motive (fun field => motive field.type) (fun arms => ∀ arm ∈ arms, motive arm)
    (fun fields => ∀ field ∈ fields, motive field.type)
    reference literal union intersection parenthesized record
    (fun _ _ _ _ h => h)
    (List.forall_mem_nil _) (fun _ _ h hs => List.forall_mem_cons.mpr ⟨h, hs⟩)
    (List.forall_mem_nil _) (fun _ _ h hs => List.forall_mem_cons.mpr ⟨h, hs⟩)
    type

/-!
# Nodes
-/

mutual

/-- A type and what it is made of, in the order in which it is written. -/
def TypeExpr.nodes : TypeExpr → List TypeExpr
  | .reference name => [.reference name]
  | .literal value => [.literal value]
  | .union arms => .union arms :: TypeExpr.allNodes arms
  | .intersection arms => .intersection arms :: TypeExpr.allNodes arms
  | .parenthesized inner => .parenthesized inner :: inner.nodes
  | .record fields => .record fields :: Field.allNodes fields

def TypeExpr.allNodes : List TypeExpr → List TypeExpr
  | [] => []
  | type :: types => type.nodes ++ TypeExpr.allNodes types

def Field.nodes : Field → List TypeExpr
  | ⟨_, _, type, _⟩ => type.nodes

def Field.allNodes : List Field → List TypeExpr
  | [] => []
  | field :: fields => field.nodes ++ Field.allNodes fields

end

theorem TypeExpr.allNodes_eq_flatMap (types : List TypeExpr) :
    TypeExpr.allNodes types = types.flatMap TypeExpr.nodes := by
  induction types with
  | nil => rfl
  | cons type types ih => rw [TypeExpr.allNodes, ih, List.flatMap_cons]

theorem Field.nodes_eq (field : Field) : field.nodes = field.type.nodes := by
  cases field with
  | mk name optional type comment => rw [Field.nodes]

theorem Field.allNodes_eq_flatMap (fields : List Field) :
    Field.allNodes fields = fields.flatMap fun field => field.type.nodes := by
  induction fields with
  | nil => rfl
  | cons field fields ih => rw [Field.allNodes, ih, List.flatMap_cons, Field.nodes_eq]

namespace TypeExpr

/-- A condition holds of a type and of everything that it is made of. -/
def Everywhere (p : TypeExpr → Prop) (type : TypeExpr) : Prop :=
  ∀ node ∈ type.nodes, p node

instance (p : TypeExpr → Prop) [DecidablePred p] (type : TypeExpr) :
    Decidable (type.Everywhere p) :=
  inferInstanceAs (Decidable (∀ node ∈ type.nodes, p node))

section

variable {p : TypeExpr → Prop}

@[simp] theorem everywhere_reference {name : String} :
    (reference name).Everywhere p ↔ p (reference name) := by
  simp [Everywhere, nodes]

@[simp] theorem everywhere_literal {value : String} :
    (literal value).Everywhere p ↔ p (literal value) := by
  simp [Everywhere, nodes]

@[simp] theorem everywhere_union {arms : List TypeExpr} :
    (union arms).Everywhere p ↔ p (union arms) ∧ ∀ arm ∈ arms, arm.Everywhere p := by
  simp only [Everywhere, nodes, allNodes_eq_flatMap, List.forall_mem_cons, List.mem_flatMap]
  grind

@[simp] theorem everywhere_intersection {arms : List TypeExpr} :
    (intersection arms).Everywhere p ↔
      p (intersection arms) ∧ ∀ arm ∈ arms, arm.Everywhere p := by
  simp only [Everywhere, nodes, allNodes_eq_flatMap, List.forall_mem_cons, List.mem_flatMap]
  grind

@[simp] theorem everywhere_parenthesized {inner : TypeExpr} :
    (parenthesized inner).Everywhere p ↔ p (parenthesized inner) ∧ inner.Everywhere p := by
  simp [Everywhere, nodes]

@[simp] theorem everywhere_record {fields : List Field} :
    (record fields).Everywhere p ↔
      p (record fields) ∧ ∀ field ∈ fields, field.type.Everywhere p := by
  simp only [Everywhere, nodes, Field.allNodes_eq_flatMap, List.forall_mem_cons,
    List.mem_flatMap]
  grind

end

theorem mem_nodes (type : TypeExpr) : type ∈ type.nodes := by
  cases type <;> simp [nodes]

theorem Everywhere.here {p : TypeExpr → Prop} {type : TypeExpr} (h : type.Everywhere p) :
    p type :=
  h type type.mem_nodes

end TypeExpr
end VocabTypes
