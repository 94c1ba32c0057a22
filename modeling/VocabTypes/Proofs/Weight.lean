import Mathlib.Algebra.BigOperators.Group.List.Basic
import VocabTypes.Proofs.Grouping

/-!
# Weights

## Why a type that is not grouped is read differently

A union weighs what its arms weigh together, and the weights of the factors of an
intersection are multiplied.  The weight depends on the normal form only.  A bar that
ends an intersection too early takes factors away from some arms, which makes the type
that is read lighter than the one that was printed.
-/

namespace VocabTypes

namespace Connective

/-- Weights put together. -/
def total : Connective → List Nat → Nat
  | union, weights => weights.sum
  | intersection, weights => weights.prod

@[simp] theorem total_singleton (c : Connective) (weight : Nat) : c.total [weight] = weight := by
  cases c with
  | union => exact List.sum_singleton
  | intersection => exact List.prod_singleton

theorem total_append_congr {c : Connective} {first second more others : List Nat}
    (h : c.total first = c.total second) (hmore : c.total more = c.total others) :
    c.total (first ++ more) = c.total (second ++ others) := by
  cases c with
  | union =>
      show (first ++ more).sum = (second ++ others).sum
      rw [List.sum_append, List.sum_append]
      exact congrArg₂ _ h hmore
  | intersection =>
      show (first ++ more).prod = (second ++ others).prod
      rw [List.prod_append, List.prod_append]
      exact congrArg₂ _ h hmore

end Connective

mutual

def TypeExpr.weight : TypeExpr → Nat
  | .reference _ => 2
  | .literal _ => 2
  | .union arms => Connective.union.total (TypeExpr.weights arms)
  | .intersection arms => Connective.intersection.total (TypeExpr.weights arms)
  | .parenthesized inner => inner.weight
  | .record fields => 2 + (Field.weights fields).sum

def TypeExpr.weights : List TypeExpr → List Nat
  | [] => []
  | type :: types => type.weight :: TypeExpr.weights types

def Field.weights : List Field → List Nat
  | [] => []
  | ⟨_, _, type, _⟩ :: fields => type.weight :: Field.weights fields

end

theorem Field.weights_eq_map (fields : List Field) :
    Field.weights fields = fields.map fun field => field.type.weight := by
  induction fields with
  | nil => rfl
  | cons field fields ih =>
      cases field with
      | mk name optional type comment => rw [weights, ih, List.map_cons]

namespace TypeExpr

theorem weights_eq_map (types : List TypeExpr) : weights types = types.map weight := by
  induction types with
  | nil => rfl
  | cons type types ih => rw [weights, ih, List.map_cons]

theorem weight_of (c : Connective) (types : List TypeExpr) :
    (c.of types).weight = c.total (types.map weight) := by
  rw [← weights_eq_map]
  cases c with
  | union => rw [Connective.of, weight]
  | intersection => rw [Connective.of, weight]

theorem weight_join (c : Connective) (types : List TypeExpr) :
    (c.join types).weight = c.total (types.map weight) := by
  rcases c.join_cases types with ⟨type, rfl, hjoin⟩ | ⟨_, hjoin⟩
  · rw [hjoin, List.map_singleton, Connective.total_singleton]
  · rw [hjoin, weight_of]

theorem total_parts (c : Connective) (type : TypeExpr) :
    c.total ((c.parts type).map weight) = type.weight := by
  rcases c.parts_cases type with hparts | ⟨types, rfl⟩
  · rw [hparts, List.map_singleton, Connective.total_singleton]
  · rw [Connective.parts_of, weight_of]

theorem total_normalParts {c : Connective} {types : List TypeExpr}
    (h : ∀ type ∈ types, type.normal.weight = type.weight) :
    c.total ((normalParts c types).map weight) = c.total (types.map weight) := by
  induction types with
  | nil => rfl
  | cons type types ih =>
      rcases List.forall_mem_cons.mp h with ⟨htype, htypes⟩
      have hparts : c.total ((c.parts type.normal).map weight) = c.total [type.weight] := by
        rw [total_parts, htype, Connective.total_singleton]
      rw [normalParts, List.map_append, List.map_cons, ← List.singleton_append]
      exact Connective.total_append_congr hparts (ih htypes)

theorem weight_normal (type : TypeExpr) : type.normal.weight = type.weight := by
  induction type with
  | reference name => rfl
  | literal value => rfl
  | union arms ih => rw [normal, weight_join, total_normalParts ih, weight, weights_eq_map]
  | intersection arms ih => rw [normal, weight_join, total_normalParts ih, weight, weights_eq_map]
  | parenthesized inner ih => rw [normal, weight, ih]
  | record fields ih =>
      have hfields : (fields.map Field.normal).map (fun field => field.type.weight) =
          fields.map fun field => field.type.weight := by
        rw [List.map_map]
        exact List.map_congr_left ih
      rw [normal, weight, weight, Field.weights_eq_map, Field.weights_eq_map,
        Field.normalAll_eq_map, hfields]

theorem one_le_prod {weights : List Nat} (h : ∀ weight ∈ weights, 2 ≤ weight) :
    1 ≤ weights.prod := by
  induction weights with
  | nil => exact Nat.le_refl 1
  | cons weight weights ih =>
      rcases List.forall_mem_cons.mp h with ⟨hweight, hweights⟩
      rw [List.prod_cons]
      exact Nat.mul_pos (by omega) (ih hweights)

/-- A factor is never without effect. -/
theorem two_le_weight {type : TypeExpr} (h : type.Everywhere HasArms) : 2 ≤ type.weight := by
  induction type with
  | reference name => exact Nat.le_refl 2
  | literal value => exact Nat.le_refl 2
  | union arms ih =>
      rcases everywhere_union.mp h with ⟨hne, harms⟩
      cases arms with
      | nil => cases hne
      | cons arm arms =>
          have harm := ih arm List.mem_cons_self (harms arm List.mem_cons_self)
          show 2 ≤ (weights (arm :: arms)).sum
          rw [weights, List.sum_cons]
          omega
  | intersection arms ih =>
      rcases everywhere_intersection.mp h with ⟨hne, harms⟩
      cases arms with
      | nil => cases hne
      | cons arm arms =>
          have harm := ih arm List.mem_cons_self (harms arm List.mem_cons_self)
          have hrest : 1 ≤ (weights arms).prod := by
            apply one_le_prod
            rw [weights_eq_map, List.forall_mem_map]
            intro other hother
            have hmem := List.mem_cons_of_mem arm hother
            exact ih other hmem (harms other hmem)
          show 2 ≤ (weights (arm :: arms)).prod
          rw [weights, List.prod_cons]
          exact Nat.le_trans harm (Nat.le_mul_of_pos_right arm.weight hrest)
  | parenthesized inner ih =>
      rw [weight]
      exact ih (everywhere_parenthesized.mp h).2
  | record fields ih =>
      rw [weight]
      exact Nat.le_add_right 2 _

end TypeExpr

/-!
# The weight of a draft
-/

namespace Draft

/-- What the complete arms weigh together. -/
def sum (draft : Draft) : Nat :=
  (draft.arms.map TypeExpr.weight).sum

/-- What the arm that is being read weighs. -/
def product (draft : Draft) : Nat :=
  (draft.factors.map TypeExpr.weight).prod

theorem product_put (draft : Draft) (factor : TypeExpr) :
    (draft.put factor).product = draft.product * factor.weight := by
  rw [product, put, List.map_append, List.prod_append, List.map_singleton,
    List.prod_singleton]
  rfl

theorem sum_nextArm (draft : Draft) : draft.nextArm.sum = draft.sum + draft.product := by
  rw [sum, nextArm, List.map_append, List.sum_append, List.map_singleton, List.sum_singleton,
    TypeExpr.weight_join]
  rfl

theorem weight_close (draft : Draft) : draft.close.weight = draft.sum + draft.product := by
  rw [close, TypeExpr.weight_join]
  exact draft.sum_nextArm

/--
What a draft gains at most when something of a weight is read into it.

Nothing is lost only if what is read is grouped and a bar in it ends no factors that
were there before.
-/
structure Gains (draft after : Draft) (weight : Nat) (bar : Bool) (grouped : Prop) : Prop where
  sum_le : draft.sum ≤ after.sum
  product_pos : 1 ≤ after.product
  total_le : after.sum + after.product ≤ draft.sum + draft.product * weight
  sum_lt_of_bar : bar = true → draft.sum < after.sum
  of_total_eq : after.sum + after.product = draft.sum + draft.product * weight →
    grouped ∧ (bar = true → draft.product = 1)

end Draft

namespace TypeExpr

open Draft

/-- Reading a type into any draft gains at most the weight of the type. -/
def GainsWeight (change : Draft → Draft) (weight : Nat) (bar : Bool) (grouped : Prop) : Prop :=
  ∀ draft, 1 ≤ draft.product → Gains draft (change draft) weight bar grouped

theorem gainsWeight_put {factor : TypeExpr} {weight : Nat} {grouped : Prop}
    (hfactor : 1 ≤ factor.weight) (hle : factor.weight ≤ weight)
    (heq : factor.weight = weight → grouped) :
    GainsWeight (fun draft => draft.put factor) weight false grouped := by
  intro draft hpos
  constructor
  case sum_le => exact Nat.le_refl draft.sum
  case product_pos =>
    rw [product_put]
    exact Nat.mul_pos hpos hfactor
  case total_le =>
    rw [product_put]
    exact Nat.add_le_add_left (Nat.mul_le_mul_left draft.product hle) draft.sum
  case sum_lt_of_bar =>
    intro hbar
    cases hbar
  case of_total_eq =>
    intro htotal
    rw [product_put] at htotal
    have hproduct := Nat.add_left_cancel htotal
    refine ⟨heq (Nat.eq_of_mul_eq_mul_left hpos hproduct), ?_⟩
    intro hbar
    cases hbar

theorem GainsWeight.imp {change : Draft → Draft} {weight : Nat} {bar : Bool}
    {grouped other : Prop} (h : GainsWeight change weight bar grouped)
    (himp : grouped → other) : GainsWeight change weight bar other := by
  intro draft hpos
  rcases h draft hpos with ⟨hsum, hproduct, htotal, hbar, heq⟩
  exact ⟨hsum, hproduct, htotal, hbar, fun hsame => (heq hsame).imp himp id⟩

theorem GainsWeight.readBack {type : TypeExpr} {bar : Bool} {grouped : Prop}
    (h : GainsWeight type.readInto type.weight bar grouped) :
    1 ≤ type.readBack.weight ∧ type.readBack.weight ≤ type.weight ∧
      (type.readBack.weight = type.weight → grouped) := by
  have hgains := h .empty (Nat.le_refl 1)
  have hempty : Draft.empty.sum + Draft.empty.product * type.weight = type.weight := by
    show 0 + 1 * type.weight = type.weight
    rw [Nat.zero_add, Nat.one_mul]
  have hpos := hgains.product_pos
  have htotal := hgains.total_le
  have heq := hgains.of_total_eq
  rw [hempty] at htotal heq
  rw [TypeExpr.readBack, weight_close]
  exact ⟨by omega, htotal, fun hweight => (heq hweight).1⟩

/-!
# Arms of a union
-/

theorem gainsWeight_arms {arms : List TypeExpr} (hne : arms ≠ [])
    (hweights : ∀ arm ∈ arms, 2 ≤ arm.weight)
    (h : ∀ arm ∈ arms, GainsWeight arm.readInto arm.weight arm.showsBar
      (arm.Everywhere IsGrouped)) :
    GainsWeight (readArmsInto arms) (arms.map weight).sum (armsShowBar arms)
      (∀ arm ∈ arms, arm.Everywhere IsGrouped) := by
  induction arms with
  | nil => exact absurd rfl hne
  | cons arm arms ih =>
      rcases List.forall_mem_cons.mp h with ⟨harm, harms⟩
      rcases List.forall_mem_cons.mp hweights with ⟨hweight, hothers⟩
      intro draft hpos
      have hfirst := harm draft hpos
      cases arms with
      | nil =>
          rw [readArmsInto, List.map_singleton, List.sum_singleton, armsShowBar]
          refine ⟨hfirst.sum_le, hfirst.product_pos, hfirst.total_le, hfirst.sum_lt_of_bar, ?_⟩
          intro htotal
          rcases hfirst.of_total_eq htotal with ⟨hgrouped, hbar⟩
          exact ⟨by simpa using hgrouped, hbar⟩
      | cons second arms =>
          have hrest := ih (by simp) hothers harms (arm.readInto draft).nextArm (Nat.le_refl 1)
          have hbegun : (arm.readInto draft).nextArm.product = 1 := rfl
          have hsum := sum_nextArm (arm.readInto draft)
          have htwo : 2 ≤ ((second :: arms).map weight).sum := by
            rw [List.map_cons, List.sum_cons]
            have := hothers second List.mem_cons_self
            omega
          rw [List.map_cons, List.sum_cons]
          rw [readArmsInto]
          generalize ((second :: arms).map weight).sum = others at hrest htwo ⊢
          have hle := Nat.le_mul_of_pos_left others hpos
          have htotal := hrest.total_le
          have hfirstTotal := hfirst.total_le
          rw [hbegun, Nat.one_mul] at htotal
          have hfirstSum := hfirst.sum_le
          have hfirstPos := hfirst.product_pos
          have hrestSum := hrest.sum_le
          constructor
          case sum_le => omega
          case product_pos => exact hrest.product_pos
          case total_le =>
            rw [Nat.mul_add]
            omega
          case sum_lt_of_bar =>
            intro _
            omega
          case of_total_eq =>
            intro heq
            rw [Nat.mul_add] at heq
            -- Every bound that was used is attained.
            have hproduct : draft.product * others = 1 * others := by omega
            have hfirstEq := hfirst.of_total_eq (by omega)
            have hrestEq := hrest.of_total_eq (by rw [hbegun]; omega)
            have hone := Nat.eq_of_mul_eq_mul_right (by omega) hproduct
            exact ⟨List.forall_mem_cons.mpr ⟨hfirstEq.1, hrestEq.1⟩, fun _ => hone⟩

/-!
# Factors of an intersection
-/

/-- What is taken from one factor by a bar is not multiplied by the factors after it. -/
theorem total_le_of_factor {sum product sumAfter productAfter weight others : Nat}
    (hsum : sum ≤ sumAfter) (htotal : sumAfter + productAfter ≤ sum + product * weight)
    (hothers : 1 ≤ others) :
    sumAfter + productAfter * others ≤ sum + product * (weight * others) ∧
      (sumAfter + productAfter * others = sum + product * (weight * others) →
        sumAfter + productAfter = sum + product * weight ∧
          (sum < sumAfter → others = 1)) := by
  rcases Nat.exists_eq_add_of_le hsum with ⟨taken, rfl⟩
  have hkept : (taken + productAfter) * others ≤ product * weight * others :=
    Nat.mul_le_mul_right others (by omega)
  have htaken : taken * 1 ≤ taken * others := Nat.mul_le_mul_left taken hothers
  rw [Nat.add_mul] at hkept
  rw [← Nat.mul_assoc]
  constructor
  · omega
  · intro heq
    have hproduct : (taken + productAfter) * others = product * weight * others := by
      rw [Nat.add_mul]
      omega
    have hsame := Nat.eq_of_mul_eq_mul_right hothers hproduct
    refine ⟨by omega, ?_⟩
    intro hlt
    have hone : taken * others = taken * 1 := by omega
    exact Nat.eq_of_mul_eq_mul_left (by omega) hone

/-- The factors are grouped, and none of several factors shows a bar. -/
def FactorsGrouped (arms : List TypeExpr) : Prop :=
  (∀ arm ∈ arms, arm.Everywhere IsGrouped) ∧
    (arms.any showsBarAsFactor = true → arms.length = 1)

theorem gainsWeight_factors {arms : List TypeExpr} (hweights : ∀ arm ∈ arms, 2 ≤ arm.weight)
    (h : ∀ arm ∈ arms, GainsWeight arm.readFactorInto arm.weight arm.showsBarAsFactor
      (arm.Everywhere IsGrouped)) :
    GainsWeight (readFactorsInto arms) (arms.map weight).prod (arms.any showsBarAsFactor)
      (FactorsGrouped arms) := by
  induction arms with
  | nil =>
      intro draft hpos
      have hnobar : ([] : List TypeExpr).any showsBarAsFactor ≠ true := Bool.false_ne_true
      have htotal : draft.sum + draft.product = draft.sum + draft.product * 1 := by
        rw [Nat.mul_one]
      refine ⟨Nat.le_refl _, hpos, Nat.le_of_eq htotal, fun hbar => absurd hbar hnobar, ?_⟩
      intro _
      exact ⟨⟨List.forall_mem_nil _, fun hbar => absurd hbar hnobar⟩,
        fun hbar => absurd hbar hnobar⟩
  | cons arm arms ih =>
      rcases List.forall_mem_cons.mp h with ⟨harm, harms⟩
      rcases List.forall_mem_cons.mp hweights with ⟨hweight, hothers⟩
      intro draft hpos
      have hfirst := harm draft hpos
      have hrest := ih hothers harms (arm.readFactorInto draft) hfirst.product_pos
      have hone : 1 ≤ (arms.map weight).prod := one_le_prod (List.forall_mem_map.mpr hothers)
      have hstep := total_le_of_factor hfirst.sum_le hfirst.total_le hone
      rw [List.map_cons, List.prod_cons, readFactorsInto_cons, List.any_cons]
      constructor
      case sum_le => exact Nat.le_trans hfirst.sum_le hrest.sum_le
      case product_pos => exact hrest.product_pos
      case total_le => exact Nat.le_trans hrest.total_le hstep.1
      case sum_lt_of_bar =>
        intro hbar
        rcases Bool.or_eq_true_iff.mp hbar with hbar | hbar
        · exact Nat.lt_of_lt_of_le (hfirst.sum_lt_of_bar hbar) hrest.sum_le
        · exact Nat.lt_of_le_of_lt hfirst.sum_le (hrest.sum_lt_of_bar hbar)
      case of_total_eq =>
        intro heq
        have hrestTotal := Nat.le_antisymm hrest.total_le (heq ▸ hstep.1)
        rcases hstep.2 (hrestTotal ▸ heq) with ⟨hfirstTotal, hlast⟩
        rcases hfirst.of_total_eq hfirstTotal with ⟨hgrouped, hbarFirst⟩
        rcases hrest.of_total_eq hrestTotal with ⟨⟨hallGrouped, hsingle⟩, hbarRest⟩
        -- A bar in the first factor takes something from it, so no factor follows.
        have hnone (hlt : draft.sum < (arm.readFactorInto draft).sum) : arms = [] := by
          cases arms with
          | nil => rfl
          | cons second arms =>
              have hprod := hlast hlt
              have htwo := hothers second List.mem_cons_self
              rw [List.map_cons, List.prod_cons] at hprod
              have hone := Nat.eq_one_of_mul_eq_one_right hprod
              omega
        -- A bar in a later factor would end the first one.
        have hclosed : arms.any showsBarAsFactor = false := by
          apply Bool.eq_false_iff.mpr
          intro hbar
          have hproduct := hbarRest hbar
          have htwo : 2 ≤ draft.product * arm.weight :=
            Nat.le_trans hweight (Nat.le_mul_of_pos_left arm.weight hpos)
          have harmsNil := hnone (by omega)
          rw [harmsNil] at hbar
          cases hbar
        rw [hclosed, Bool.or_false]
        refine ⟨⟨List.forall_mem_cons.mpr ⟨hgrouped, hallGrouped⟩, ?_⟩, hbarFirst⟩
        intro hbar
        rw [List.any_cons, hclosed, Bool.or_false] at hbar
        rw [hnone (hfirst.sum_lt_of_bar hbar), List.length_singleton]

/-!
# Types
-/

theorem gainsWeight_readFactorInto {arm : TypeExpr}
    (h : GainsWeight arm.readInto arm.weight arm.showsBar (arm.Everywhere IsGrouped)) :
    GainsWeight arm.readFactorInto arm.weight arm.showsBarAsFactor
      (arm.Everywhere IsGrouped) := by
  rcases h.readBack with ⟨hpos, hle, heq⟩
  unfold GainsWeight readFactorInto showsBarAsFactor
  cases arm.isWideUnion with
  | true =>
      have hinside : GainsWeight (fun draft => draft.put (parenthesized arm.readBack)) arm.weight
          false (arm.Everywhere IsGrouped) := by
        apply gainsWeight_put
        · rw [weight]
          exact hpos
        · rw [weight]
          exact hle
        · rw [weight]
          exact heq
      exact hinside
  | false => exact h

theorem sum_map_le {α : Type} {u v : α → Nat} {items : List α}
    (h : ∀ item ∈ items, u item ≤ v item) :
    (items.map u).sum ≤ (items.map v).sum ∧
      ((items.map u).sum = (items.map v).sum → ∀ item ∈ items, u item = v item) := by
  induction items with
  | nil => exact ⟨Nat.le_refl 0, fun _ => List.forall_mem_nil _⟩
  | cons item items ih =>
      rcases List.forall_mem_cons.mp h with ⟨hitem, hitems⟩
      rcases ih hitems with ⟨hle, heq⟩
      rw [List.map_cons, List.map_cons, List.sum_cons, List.sum_cons]
      refine ⟨Nat.add_le_add hitem hle, ?_⟩
      intro htotal
      exact List.forall_mem_cons.mpr ⟨by omega, heq (by omega)⟩

theorem gainsWeight_record {fields : List Field}
    (h : ∀ field ∈ fields, GainsWeight field.type.readInto field.type.weight
      field.type.showsBar (field.type.Everywhere IsGrouped)) :
    GainsWeight (record fields).readInto (record fields).weight false
      (∀ field ∈ fields, field.type.Everywhere IsGrouped) := by
  have hfields := fun field hfield => (h field hfield).readBack
  have hsum := sum_map_le fun field hfield => (hfields field hfield).2.1
  have hinside : (record (Field.readAll fields)).weight =
      2 + (fields.map fun field => field.type.readBack.weight).sum := by
    rw [weight, Field.weights_eq_map, Field.readAll_eq_map, List.map_map]
    rfl
  have hrecord : (record fields).weight =
      2 + (fields.map fun field => field.type.weight).sum := by
    rw [weight, Field.weights_eq_map]
  apply gainsWeight_put
  · rw [hinside]
    omega
  · rw [hinside, hrecord]
    exact Nat.add_le_add_left hsum.1 2
  · intro heq field hfield
    rw [hinside, hrecord] at heq
    exact (hfields field hfield).2.2 (hsum.2 (Nat.add_left_cancel heq) field hfield)

theorem FactorsGrouped.isGrouped {arms : List TypeExpr} (h : FactorsGrouped arms) :
    (intersection arms).IsGrouped := by
  cases hbar : arms.any showsBarAsFactor with
  | true => exact Or.inl (h.2 hbar)
  | false =>
      rw [List.any_eq_false] at hbar
      exact Or.inr fun arm harm => Bool.eq_false_iff.mpr (hbar arm harm)

theorem gainsWeight_readInto {type : TypeExpr} (h : type.Everywhere HasArms) :
    GainsWeight type.readInto type.weight type.showsBar (type.Everywhere IsGrouped) := by
  induction type with
  | reference name =>
      exact gainsWeight_put (Nat.le_succ 1) (Nat.le_refl 2) fun _ =>
        everywhere_reference.mpr trivial
  | literal value =>
      exact gainsWeight_put (Nat.le_succ 1) (Nat.le_refl 2) fun _ =>
        everywhere_literal.mpr trivial
  | union arms ih =>
      rcases everywhere_union.mp h with ⟨hne, harms⟩
      have hgains := gainsWeight_arms (List.isEmpty_eq_false_iff.mp hne)
        (fun arm harm => two_le_weight (harms arm harm))
        fun arm harm => ih arm harm (harms arm harm)
      rw [weight, weights_eq_map, showsBar]
      exact hgains.imp fun hgrouped => everywhere_union.mpr ⟨trivial, hgrouped⟩
  | intersection arms ih =>
      have harms := (everywhere_intersection.mp h).2
      have hgains := gainsWeight_factors
        (fun arm harm => two_le_weight (harms arm harm))
        fun arm harm => gainsWeight_readFactorInto (ih arm harm (harms arm harm))
      rw [weight, weights_eq_map, showsBar, factorsShowBar_eq_any]
      exact hgains.imp fun hgrouped =>
        everywhere_intersection.mpr ⟨hgrouped.isGrouped, hgrouped.1⟩
  | parenthesized inner ih =>
      rcases (ih (everywhere_parenthesized.mp h).2).readBack with ⟨hpos, hle, heq⟩
      rw [weight]
      exact gainsWeight_put hpos hle fun hweight =>
        everywhere_parenthesized.mpr ⟨trivial, heq hweight⟩
  | record fields ih =>
      have hgains := gainsWeight_record fun field hfield =>
        ih field hfield ((everywhere_record.mp h).2 field hfield)
      exact hgains.imp fun hgrouped => everywhere_record.mpr ⟨trivial, hgrouped⟩

/-!
# The exact condition
-/

theorem normal_readBack_iff {type : TypeExpr} (h : type.Everywhere HasArms) :
    type.readBack.normal = type.normal ↔ type.Everywhere IsGrouped := by
  constructor
  · intro hnormal
    have hweight : type.readBack.weight = type.weight := by
      rw [← weight_normal type.readBack, hnormal, weight_normal]
    exact (gainsWeight_readInto h).readBack.2.2 hweight
  · intro hgrouped
    exact normal_readBack h hgrouped

/--
The text of a type on one line is always the text of some type.

It is the same type, up to the normal form, if and only if all intersections are
grouped.
-/
theorem read_inline_iff_grouped (type : TypeExpr) (hplain : type.Everywhere IsPlain)
    (harms : type.Everywhere HasArms) :
    ∃ read, read? type.inline = some read ∧
      (read.normal = type.normal ↔ type.Everywhere IsGrouped) := by
  exists type.readBack
  exact ⟨read?_inline hplain harms, normal_readBack_iff harms⟩

theorem placeShape_read_back :
    placeShape.Everywhere IsGrouped ∧
      ∃ read, read? placeShape.inline = some read ∧ read.normal = placeShape.normal := by
  rcases read_inline_iff_grouped placeShape (by decide) (by decide) with ⟨read, hread, hnormal⟩
  exact ⟨by decide, read, hread, hnormal.mpr (by decide)⟩

/-- An intersection in which a union of two arms is the only arm of another union. -/
def loneUnionShape : TypeExpr :=
  .intersection [.union [.union [.reference "A", .reference "B"]], .reference "C"]

/-- The bar of the inner union is printed without parentheses and ends the intersection. -/
theorem loneUnionShape_misread :
    loneUnionShape.Everywhere IsPlain ∧ loneUnionShape.Everywhere HasArms ∧
      loneUnionShape.inline = "A | B & C" ∧
      read? loneUnionShape.inline =
        some (.union [.reference "A", .intersection [.reference "B", .reference "C"]]) ∧
      (union [.reference "A", .intersection [.reference "B", .reference "C"]]).normal ≠
        loneUnionShape.normal := by
  have harms : loneUnionShape.Everywhere HasArms := by decide
  have hread : loneUnionShape.readBack =
      .union [.reference "A", .intersection [.reference "B", .reference "C"]] := rfl
  rw [← hread]
  refine ⟨by decide, harms, by decide, read?_inline (by decide) harms, ?_⟩
  rw [Ne, normal_readBack_iff harms]
  decide

end TypeExpr

end VocabTypes
