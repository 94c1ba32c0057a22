import VocabTypes.Proofs.ReadBack

/-!
# Grouping

## When a printed type is read as it was meant

A bar inside an intersection has to be in parentheses, for it would end the
intersection otherwise.  The printer puts parentheses around a union of several arms.
It does not look for such a union inside a union of one arm, or inside an intersection
of one arm, both of which are printed as that arm.  A type is read back as it was meant
exactly if no intersection of several types has an arm of this kind.
-/

namespace VocabTypes

open Text

mutual

/-- Whether a type is printed with a bar outside of all brackets. -/
def TypeExpr.showsBar : TypeExpr → Bool
  | .reference _ => false
  | .literal _ => false
  | .union arms => TypeExpr.armsShowBar arms
  | .intersection arms => TypeExpr.factorsShowBar arms
  | .parenthesized _ => false
  | .record _ => false

def TypeExpr.armsShowBar : List TypeExpr → Bool
  | [] => false
  | [arm] => arm.showsBar
  | _ :: _ :: _ => true

def TypeExpr.factorsShowBar : List TypeExpr → Bool
  | [] => false
  | arm :: arms => (!arm.isWideUnion && arm.showsBar) || TypeExpr.factorsShowBar arms

end

namespace TypeExpr

/-- Whether a type is printed with a bar outside of all brackets, as an arm of an intersection. -/
def showsBarAsFactor (arm : TypeExpr) : Bool :=
  !arm.isWideUnion && arm.showsBar

theorem factorsShowBar_eq_any (arms : List TypeExpr) :
    factorsShowBar arms = arms.any showsBarAsFactor := by
  induction arms with
  | nil => rfl
  | cons arm arms ih =>
      rw [factorsShowBar, ih, List.any_cons]
      rfl

/-- An intersection of several types has no bar between them. -/
def IsGrouped : TypeExpr → Prop
  | intersection arms => arms.length = 1 ∨ ∀ arm ∈ arms, arm.showsBarAsFactor = false
  | _ => True

instance : DecidablePred IsGrouped
  | intersection arms =>
      inferInstanceAs (Decidable (arms.length = 1 ∨ ∀ arm ∈ arms, arm.showsBarAsFactor = false))
  | reference _ | literal _ | union _ | parenthesized _ | record _ => isTrue trivial

/-!
# Reading a type into a draft

The normal forms of what is in a draft tell what has been read.
-/

/-- The factors of a type are added to the arm that is being read. -/
def AddsFactors (change : Draft → Draft) (type : TypeExpr) : Prop :=
  ∀ draft, (change draft).arms = draft.arms ∧
    normalParts .intersection (change draft).factors =
      normalParts .intersection draft.factors ++ Connective.intersection.parts type.normal

/-- The arms of a type are added to a draft in which no arm has been begun. -/
def AddsArms (change : Draft → Draft) (type : TypeExpr) : Prop :=
  ∀ draft, draft.factors = [] →
    normalParts .union (change draft).nextArm.arms =
      normalParts .union draft.arms ++ Connective.union.parts type.normal

theorem normalParts_nextArm (draft : Draft) :
    normalParts .union draft.nextArm.arms =
      normalParts .union draft.arms ++ Connective.union.parts
        (Connective.intersection.join (normalParts .intersection draft.factors)) := by
  rw [Draft.nextArm, normalParts_append, normalParts_singleton, normal_join]

theorem AddsFactors.addsArms {change : Draft → Draft} {type : TypeExpr}
    (h : AddsFactors change type) : AddsArms change type := by
  intro draft hbegun
  rcases h draft with ⟨harms, hfactors⟩
  rw [hbegun, normalParts, List.nil_append] at hfactors
  rw [normalParts_nextArm, harms, hfactors, join_parts_normal]

theorem AddsArms.normal_close {change : Draft → Draft} {type : TypeExpr}
    (h : AddsArms change type) : (change .empty).close.normal = type.normal := by
  have harms := h .empty rfl
  rw [Draft.close, normal_join, harms]
  exact join_parts_normal .union type

theorem addsFactors_put {factor type : TypeExpr} (h : factor.normal = type.normal) :
    AddsFactors (fun draft => draft.put factor) type := by
  intro draft
  constructor
  · rfl
  · show normalParts .intersection (draft.factors ++ [factor]) = _
    rw [normalParts_append, normalParts_singleton, h]

theorem normalParts_readArmsInto {arms : List TypeExpr} (hne : arms ≠ [])
    (h : ∀ arm ∈ arms, AddsArms arm.readInto arm) {draft : Draft} (hbegun : draft.factors = []) :
    normalParts .union (readArmsInto arms draft).nextArm.arms =
      normalParts .union draft.arms ++ normalParts .union arms := by
  induction arms generalizing draft with
  | nil => exact absurd rfl hne
  | cons arm arms ih =>
      rcases List.forall_mem_cons.mp h with ⟨harm, harms⟩
      cases arms with
      | nil => rw [readArmsInto, harm draft hbegun, normalParts_singleton]
      | cons second arms =>
          have hrest : (arm.readInto draft).nextArm.factors = [] := rfl
          rw [readArmsInto, ih (by simp) harms hrest, harm draft hbegun, List.append_assoc]
          rfl

theorem addsArms_union {arms : List TypeExpr} (hne : arms ≠ [])
    (h : ∀ arm ∈ arms, AddsArms arm.readInto arm) :
    AddsArms (union arms).readInto (union arms) := by
  intro draft hbegun
  rw [readInto, normalParts_readArmsInto hne h hbegun, normal, parts_normal_join]

theorem normalParts_readFactorsInto {arms : List TypeExpr}
    (h : ∀ arm ∈ arms, AddsFactors arm.readFactorInto arm) (draft : Draft) :
    (readFactorsInto arms draft).arms = draft.arms ∧
      normalParts .intersection (readFactorsInto arms draft).factors =
        normalParts .intersection draft.factors ++ normalParts .intersection arms := by
  induction arms generalizing draft with
  | nil => simp [readFactorsInto, normalParts]
  | cons arm arms ih =>
      rcases List.forall_mem_cons.mp h with ⟨harm, hothers⟩
      rcases harm draft with ⟨harms, hfactors⟩
      rcases ih hothers (arm.readFactorInto draft) with ⟨hrestArms, hrestFactors⟩
      rw [readFactorsInto_cons, hrestArms, hrestFactors, harms, hfactors, normalParts,
        List.append_assoc]
      exact ⟨rfl, rfl⟩

theorem addsFactors_intersection {arms : List TypeExpr}
    (h : ∀ arm ∈ arms, AddsFactors arm.readFactorInto arm) :
    AddsFactors (intersection arms).readInto (intersection arms) := by
  intro draft
  rw [readInto, normal, parts_normal_join]
  exact normalParts_readFactorsInto h draft

theorem addsFactors_readFactorInto {arm : TypeExpr}
    (hfactors : arm.showsBar = false → AddsFactors arm.readInto arm)
    (harms : AddsArms arm.readInto arm) (h : arm.showsBarAsFactor = false) :
    AddsFactors arm.readFactorInto arm := by
  unfold showsBarAsFactor at h
  unfold AddsFactors readFactorInto
  cases hwide : arm.isWideUnion with
  | true =>
      have hinside : (parenthesized arm.readBack).normal = arm.normal := harms.normal_close
      exact addsFactors_put hinside
  | false =>
      rw [hwide] at h
      exact hfactors h

/-- A union or an intersection of one type is read as this type. -/
theorem normal_of_singleton (c : Connective) (type : TypeExpr) :
    (c.of [type]).normal = type.normal := by
  rw [normal_of, normalParts_singleton, join_parts_normal]

theorem normal_record_readBack {fields : List Field}
    (h : ∀ field ∈ fields, field.type.readBack.normal = field.type.normal) :
    (record (fields.map Field.readBack)).normal = (record fields).normal := by
  rw [normal, normal, Field.normalAll_eq_map, Field.normalAll_eq_map, List.map_map]
  congr 1
  apply List.map_congr_left
  intro field hfield
  rw [Function.comp_apply, Field.normal, Field.normal, ← h field hfield]
  rfl

/-- What is read from a grouped type has the parts of the type. -/
theorem readInto_adds {type : TypeExpr} (harms : type.Everywhere HasArms)
    (hgrouped : type.Everywhere IsGrouped) :
    (type.showsBar = false → AddsFactors type.readInto type) ∧ AddsArms type.readInto type := by
  -- Where no bar shows, the first part gives the second.
  have hclosed {type : TypeExpr} (h : AddsFactors type.readInto type) :
      (type.showsBar = false → AddsFactors type.readInto type) ∧ AddsArms type.readInto type :=
    ⟨fun _ => h, h.addsArms⟩
  induction type with
  | reference name => exact hclosed (addsFactors_put rfl)
  | literal value => exact hclosed (addsFactors_put rfl)
  | union arms ih =>
      rcases everywhere_union.mp harms with ⟨hne, harms⟩
      have hadds := fun arm harm =>
        ih arm harm (harms arm harm) ((everywhere_union.mp hgrouped).2 arm harm)
      constructor
      · intro hbar
        cases arms with
        | nil => cases hne
        | cons arm arms =>
            cases arms with
            | nil =>
                have hnormal : (union [arm]).normal = arm.normal := normal_of_singleton .union arm
                have harm := (hadds arm List.mem_cons_self).1 hbar
                intro draft
                rw [hnormal]
                exact harm draft
            | cons second arms => cases hbar
      · exact addsArms_union (List.isEmpty_eq_false_iff.mp hne) fun arm harm => (hadds arm harm).2
  | intersection arms ih =>
      rcases everywhere_intersection.mp harms with ⟨hne, harms⟩
      rcases everywhere_intersection.mp hgrouped with ⟨hbars, hgrouped⟩
      have hadds := fun arm harm => ih arm harm (harms arm harm) (hgrouped arm harm)
      have hfactors (hbars : ∀ arm ∈ arms, arm.showsBarAsFactor = false) :
          AddsFactors (intersection arms).readInto (intersection arms) :=
        addsFactors_intersection fun arm harm =>
          addsFactors_readFactorInto (hadds arm harm).1 (hadds arm harm).2 (hbars arm harm)
      constructor
      · intro hbar
        rw [showsBar, factorsShowBar_eq_any, List.any_eq_false] at hbar
        exact hfactors fun arm harm => Bool.eq_false_iff.mpr (hbar arm harm)
      · rcases hbars with hlength | hbars
        · rcases List.length_eq_one_iff.mp hlength with ⟨arm, rfl⟩
          cases hbar : arm.showsBarAsFactor with
          | false => exact (hfactors (by simpa using hbar)).addsArms
          | true =>
              have hwide : arm.isWideUnion = false := by
                rw [showsBarAsFactor, Bool.and_eq_true, Bool.not_eq_true'] at hbar
                exact hbar.1
              have hread (draft : Draft) :
                  (intersection [arm]).readInto draft = arm.readInto draft := by
                simp [readInto, readFactorsInto, hwide]
              have hnormal : (intersection [arm]).normal = arm.normal :=
                normal_of_singleton .intersection arm
              intro draft hbegun
              rw [hread, hnormal]
              exact (hadds arm List.mem_cons_self).2 draft hbegun
        · exact (hfactors hbars).addsArms
  | parenthesized inner ih =>
      have hinner := ih (everywhere_parenthesized.mp harms).2
        (everywhere_parenthesized.mp hgrouped).2
      have hinside : (parenthesized inner.readBack).normal = (parenthesized inner).normal :=
        hinner.2.normal_close
      exact hclosed (addsFactors_put hinside)
  | record fields ih =>
      have hfields := fun field hfield => ih field hfield
        ((everywhere_record.mp harms).2 field hfield)
        ((everywhere_record.mp hgrouped).2 field hfield)
      have hinside := normal_record_readBack fun field hfield =>
        (hfields field hfield).2.normal_close
      rw [← Field.readAll_eq_map] at hinside
      exact hclosed (addsFactors_put hinside)

theorem normal_readBack {type : TypeExpr} (harms : type.Everywhere HasArms)
    (hgrouped : type.Everywhere IsGrouped) : type.readBack.normal = type.normal :=
  (readInto_adds harms hgrouped).2.normal_close

end TypeExpr
end VocabTypes
