import Mathlib.Data.List.Basic
import VocabTypes.Proofs.Calls

/-!
# Without deprecated properties

## Runs that never had them

Nothing that a call checks or changes depends on the properties that are there.  So the
deprecated ones can be taken out of a registry at any time, or out of the calls that make
it: the registry is the same.
-/

namespace VocabTypes

/-!
# Leaving out deprecated properties
-/

/-- The properties that are not deprecated. -/
def Property.current (properties : List Property) : List Property :=
  properties.filter fun p => !p.deprecated

def Entity.withoutDeprecated (e : Entity) : Entity :=
  { e with properties := Property.current e.properties }

@[simp] theorem Entity.href_withoutDeprecated (e : Entity) : e.withoutDeprecated.href = e.href :=
  rfl

def SourceClass.withoutDeprecated (c : SourceClass) : SourceClass :=
  { c with properties := Property.current c.properties }

/-- A call that brings no deprecated property; nothing is left of one that adds just that. -/
def Call.withoutDeprecated? : Call → Option Call
  | .addProperty id property =>
      if property.deprecated then none else some (.addProperty id property)
  | .load classes => some (.load (classes.map SourceClass.withoutDeprecated))
  | call => some call

/-- A change at a position can be made before or after a change of all items. -/
theorem map_modify {α β : Type} {f : α → β} {change : α → α} {changed : β → β}
    (h : ∀ item, f (change item) = changed (f item)) (items : List α) (position : Nat) :
    (items.modify position change).map f = (items.map f).modify position changed := by
  induction items generalizing position with
  | nil => simp
  | cons item items ih =>
      cases position with
      | zero => simp [h]
      | succ position => simp [ih]

namespace Registry

def withoutDeprecated (r : Registry) : Registry :=
  { r with entities := r.entities.map Entity.withoutDeprecated }

/-!
# Reading the table
-/

section

variable (r : Registry)

@[simp] theorem size_withoutDeprecated : r.withoutDeprecated.size = r.size :=
  List.length_map _

@[simp] theorem find?_withoutDeprecated (href : String) :
    r.withoutDeprecated.find? href = r.find? href :=
  rfl

@[simp] theorem entity?_withoutDeprecated (id : EntityId) :
    r.withoutDeprecated.entity? id = (r.entity? id).map Entity.withoutDeprecated :=
  List.getElem?_map

theorem resolve_withoutDeprecated (ids : List EntityId) :
    r.withoutDeprecated.resolve ids = (r.resolve ids).map Entity.withoutDeprecated := by
  simp only [resolve, List.map_filterMap, entity?_withoutDeprecated]

theorem parentsOf_withoutDeprecated : r.withoutDeprecated.parentsOf = r.parentsOf := by
  funext id
  rw [parentsOf, entity?_withoutDeprecated, Option.map_map]
  rfl

theorem climb_withoutDeprecated : r.withoutDeprecated.climb = r.climb := by
  funext stop start
  rw [climb, parentsOf_withoutDeprecated, size_withoutDeprecated]
  rfl

/-!
# Checks
-/

theorem closesCycle_withoutDeprecated :
    r.withoutDeprecated.closesCycle = r.closesCycle := by
  funext href parent
  unfold closesCycle subsumes
  rw [climb_withoutDeprecated, find?_withoutDeprecated]

theorem change?_withoutDeprecated (href : String) (fact : Fact) :
    r.withoutDeprecated.change? href fact = r.change? href fact := by
  have hchange : r.withoutDeprecated.changeOf = r.changeOf := by
    funext href statement
    unfold changeOf
    simp only [closesCycle_withoutDeprecated, find?_withoutDeprecated]
  rw [change?, change?, hchange]

theorem verdict_withoutDeprecated (href : String) (fact : Fact) :
    r.withoutDeprecated.verdict href fact = r.verdict href fact := by
  rw [verdict, verdict, change?_withoutDeprecated]

theorem verdicts_withoutDeprecated (href : String) (facts : List Fact) :
    r.withoutDeprecated.verdicts href facts = r.verdicts href facts := by
  induction facts with
  | nil => rfl
  | cons fact facts ih => rw [verdicts, verdicts, verdict_withoutDeprecated, ih]

theorem checkUnion_withoutDeprecated (href : String) (members : List EntityId) :
    r.withoutDeprecated.checkUnion href members = r.checkUnion href members := by
  have hunion : r.withoutDeprecated.dataTypeUnion? =
      r.dataTypeUnion?.map Entity.withoutDeprecated := List.find?_map
  have hscalar : r.withoutDeprecated.isScalar = r.isScalar := by
    funext id
    rw [isScalar, entity?_withoutDeprecated, Option.any_map]
    rfl
  have hlabel : r.withoutDeprecated.label = r.label := by
    funext id
    rw [label, label, entity?_withoutDeprecated]
    cases r.entity? id <;> rfl
  rw [checkUnion, checkUnion, hunion, hscalar, hlabel]
  cases r.dataTypeUnion? <;> rfl

/-!
# Changes
-/

theorem withoutDeprecated_append (e : Entity) :
    (r.append e).withoutDeprecated = r.withoutDeprecated.append e.withoutDeprecated := by
  simp only [append, withoutDeprecated, size, List.map_append, List.map_cons, List.map_nil,
    List.length_map]
  rfl

theorem withoutDeprecated_modify {f g : Entity → Entity}
    (h : ∀ e, (f e).withoutDeprecated = g e.withoutDeprecated) (id : EntityId) :
    (r.modify id f).withoutDeprecated = r.withoutDeprecated.modify id g := by
  rw [modify, withoutDeprecated, map_modify h]
  rfl

theorem withoutDeprecated_link (child parent : EntityId) :
    (r.link child parent).withoutDeprecated = r.withoutDeprecated.link child parent := by
  have hparents :
      (r.modify child fun e => { e with parents := e.parents ++ [parent] }).withoutDeprecated =
        r.withoutDeprecated.modify child fun e => { e with parents := e.parents ++ [parent] } := by
    apply withoutDeprecated_modify
    intro e
    rfl
  rw [link, link, ← hparents]
  apply withoutDeprecated_modify
  intro e
  rfl

theorem withoutDeprecated_apply (id : EntityId) (e : Entity) (change : Change) :
    (r.apply id e change).withoutDeprecated =
      r.withoutDeprecated.apply id e.withoutDeprecated change := by
  cases change with
  | comment text =>
      have hcomment : (r.setComment id text).withoutDeprecated =
          r.withoutDeprecated.setComment id text := by
        apply withoutDeprecated_modify
        intro e
        rfl
      rw [apply, apply, ← hcomment]
      exact apply_ite withoutDeprecated _ _ _
  | parent parent => exact r.withoutDeprecated_link id parent
  | replacement target =>
      apply withoutDeprecated_modify
      intro e
      rfl

theorem insert_withoutDeprecated (subject : Identifier) (kind : Kind) (allowString : Bool) :
    r.withoutDeprecated.insert subject kind allowString =
      (r.insert subject kind allowString).map (Prod.map id withoutDeprecated) := by
  rw [insert, insert, find?_withoutDeprecated, size_withoutDeprecated]
  cases r.find? subject.href with
  | some taken => rfl
  | none =>
      show Except.ok (r.size, _) = Except.ok (r.size, _)
      rw [withoutDeprecated_append]
      rfl

theorem insertClass_withoutDeprecated (subject : Identifier) (allowString : Bool) :
    r.withoutDeprecated.insertClass subject allowString =
      (r.insertClass subject allowString).map (Prod.map id withoutDeprecated) :=
  r.insert_withoutDeprecated subject .rdfsClass allowString

theorem insertDataTypeUnion_withoutDeprecated (url : String) (members : List EntityId)
    (doc : String) :
    r.withoutDeprecated.insertDataTypeUnion url members doc =
      (r.insertDataTypeUnion url members doc).map (Prod.map id withoutDeprecated) := by
  rw [insertDataTypeUnion, insertDataTypeUnion, checkUnion_withoutDeprecated]
  cases r.checkUnion url members with
  | error cause => rfl
  | ok _ => exact r.insert_withoutDeprecated _ _ _

theorem assert_withoutDeprecated (id : EntityId) (fact : Fact) :
    r.withoutDeprecated.assert id fact =
      (r.assert id fact).map (Prod.map (fun flag => flag) withoutDeprecated) := by
  cases he : r.entity? id with
  | none => simp only [assert, entity?_withoutDeprecated, he, Option.map_none, Except.map]
  | some e =>
      have hreduced : r.withoutDeprecated.entity? id = some e.withoutDeprecated := by
        rw [entity?_withoutDeprecated, he, Option.map_some]
      cases hchange : r.change? e.href fact with
      | error cause =>
          simp only [assert, he, hreduced, Entity.href_withoutDeprecated,
            change?_withoutDeprecated, hchange, Except.map]
      | ok change =>
          cases change with
          | none =>
              simp only [assert, he, hreduced, Entity.href_withoutDeprecated,
                change?_withoutDeprecated, hchange, Except.map, Prod.map]
          | some change =>
              simp only [assert, he, hreduced, Entity.href_withoutDeprecated,
                change?_withoutDeprecated, hchange, Except.map, Prod.map, withoutDeprecated_apply]

theorem addProperty_withoutDeprecated (id : EntityId) {property : Property}
    (h : property.deprecated = false) :
    r.withoutDeprecated.addProperty id property =
      (r.addProperty id property).map withoutDeprecated := by
  have hadded : (r.modify id fun e =>
      { e with properties := e.properties ++ [property] }).withoutDeprecated =
        r.withoutDeprecated.modify id fun e =>
          { e with properties := e.properties ++ [property] } := by
    apply withoutDeprecated_modify
    intro e
    simp [Entity.withoutDeprecated, Property.current, h]
  rw [addProperty, addProperty, size_withoutDeprecated, ← hadded]
  split <;> rfl

/-- A deprecated property is not missed where properties of its kind are left out. -/
theorem addProperty_of_deprecated (id : EntityId) {property : Property}
    (h : property.deprecated = true) :
    (r.change (r.addProperty id property)).1.withoutDeprecated = r.withoutDeprecated := by
  have hadded : (r.modify id fun e =>
      { e with properties := e.properties ++ [property] }).withoutDeprecated =
        r.withoutDeprecated.modify id fun e => e := by
    apply withoutDeprecated_modify
    intro e
    simp [Entity.withoutDeprecated, Property.current, h]
  unfold addProperty
  split
  · rw [change, hadded, modify]
    exact congrArg (fun entities => { r.withoutDeprecated with entities })
      (List.modify_id id r.withoutDeprecated.entities)
  · rfl

theorem addEnumValue_withoutDeprecated (id : EntityId) (value : EnumValue) :
    r.withoutDeprecated.addEnumValue id value =
      (r.addEnumValue id value).map withoutDeprecated := by
  have hadded : (r.modify id fun e =>
      { e with enumValues := e.enumValues ++ [value] }).withoutDeprecated =
        r.withoutDeprecated.modify id fun e =>
          { e with enumValues := e.enumValues ++ [value] } := by
    apply withoutDeprecated_modify
    intro e
    rfl
  rw [addEnumValue, addEnumValue, size_withoutDeprecated, ← hadded]
  split <;> rfl

theorem addMembers_withoutDeprecated (id : EntityId) (c : SourceClass) :
    (r.addMembers id c).withoutDeprecated =
      r.withoutDeprecated.addMembers id c.withoutDeprecated := by
  apply withoutDeprecated_modify
  intro e
  simp [Entity.withoutDeprecated, SourceClass.withoutDeprecated, Property.current]

/-!
# Batches
-/

theorem insertScalars_withoutDeprecated (scalars : List (String × Kind)) :
    r.withoutDeprecated.insertScalars scalars =
      (r.insertScalars scalars).map withoutDeprecated (fun answer => answer) := by
  induction scalars generalizing r with
  | nil => rfl
  | cons scalar scalars ih =>
      rcases hinsert : r.insert (.ofUrl (standardUrl scalar.1)) scalar.2 false with
        cause | ⟨id, after⟩
      · simp only [insertScalars, insert_withoutDeprecated, hinsert, Except.map, Prod.map]
      · simp only [insertScalars, insert_withoutDeprecated, hinsert, Except.map, Prod.map, ih]
        rcases after.insertScalars scalars with ⟨last, cause | ids⟩ <;> rfl

theorem insertStandard_withoutDeprecated :
    r.withoutDeprecated.insertStandard =
      r.insertStandard.map withoutDeprecated (fun answer => answer) := by
  rw [insertStandard, insertStandard, insertScalars_withoutDeprecated]
  rcases r.insertScalars standardScalars with ⟨after, cause | scalars⟩
  · rfl
  · simp only [Prod.map, insertDataTypeUnion_withoutDeprecated]
    rcases after.insertDataTypeUnion (standardUrl standardUnion) scalars standardUnionDoc with
      cause | ⟨id, last⟩ <;> rfl

theorem assertAll_withoutDeprecated (id : EntityId) (href : String) (facts : List (Fact × Bool)) :
    r.withoutDeprecated.assertAll id href facts =
      (r.assertAll id href facts).map withoutDeprecated (fun answer => answer) := by
  induction facts generalizing r with
  | nil => rfl
  | cons judged facts ih =>
      rcases judged with ⟨fact, _ | _⟩
      · exact ih (r.record (factUnused href fact))
      · rcases hassert : r.assert id fact with cause | ⟨flag, after⟩
        · simp only [assertAll, assert_withoutDeprecated, hassert, Except.map, Prod.map]
        · simp only [assertAll, assert_withoutDeprecated, hassert, Except.map, Prod.map, ih]

theorem loadClass_withoutDeprecated (c : SourceClass) :
    r.withoutDeprecated.loadClass c.withoutDeprecated =
      (r.loadClass c).map withoutDeprecated (fun answer => answer) := by
  rcases hverdicts : r.verdicts c.subject.href c.facts with cause | used
  · simp only [loadClass, SourceClass.withoutDeprecated, verdicts_withoutDeprecated, hverdicts,
      Prod.map]
  · rcases hinsert : r.insertClass c.subject c.allowString with cause | ⟨id, after⟩
    · simp only [loadClass, SourceClass.withoutDeprecated, verdicts_withoutDeprecated, hverdicts,
        insertClass_withoutDeprecated, hinsert, Except.map, Prod.map]
    · rcases hassert : after.assertAll id c.subject.href (c.facts.zip used) with
        ⟨last, cause | _⟩
      · simp only [loadClass, SourceClass.withoutDeprecated, verdicts_withoutDeprecated,
          hverdicts, insertClass_withoutDeprecated, hinsert, Except.map, Prod.map,
          assertAll_withoutDeprecated, hassert, Function.id_def]
      · simp only [loadClass, SourceClass.withoutDeprecated, verdicts_withoutDeprecated,
          hverdicts, insertClass_withoutDeprecated, hinsert, Except.map, Prod.map,
          assertAll_withoutDeprecated, hassert, addMembers_withoutDeprecated, Function.id_def]

theorem load_withoutDeprecated (classes : List SourceClass) :
    r.withoutDeprecated.load (classes.map SourceClass.withoutDeprecated) =
      (r.load classes).map withoutDeprecated (fun answer => answer) := by
  induction classes generalizing r with
  | nil => rfl
  | cons c classes ih =>
      rw [List.map_cons, load, load, loadClass_withoutDeprecated]
      rcases r.loadClass c with ⟨after, failure | _⟩
      · rfl
      · exact ih after

/-!
# Calls and runs
-/

theorem registration_withoutDeprecated (result : Except Rejection (EntityId × Registry)) :
    r.withoutDeprecated.registration (result.map (Prod.map id withoutDeprecated)) =
      (r.registration result).map withoutDeprecated (fun answer => answer) := by
  rcases result with cause | ⟨id, after⟩ <;> rfl

theorem change_withoutDeprecated (result : Except Rejection Registry) :
    r.withoutDeprecated.change (result.map withoutDeprecated) =
      (r.change result).map withoutDeprecated (fun answer => answer) := by
  rcases result with cause | after <;> rfl

/-- A call gives the same answer where deprecated properties are left out, and changes the same. -/
theorem perform_withoutDeprecated {call kept : Call} (h : call.withoutDeprecated? = some kept) :
    r.withoutDeprecated.perform kept =
      (r.perform call).map withoutDeprecated (fun answer => answer) := by
  cases call with
  | insertClass subject allowString =>
      cases h
      rw [perform, insertClass_withoutDeprecated]
      exact r.registration_withoutDeprecated _
  | insertBuiltin url typeName doc =>
      cases h
      rw [perform, insertBuiltin, insert_withoutDeprecated]
      exact r.registration_withoutDeprecated _
  | insertBooleanEnum url trueUrl falseUrl doc =>
      cases h
      rw [perform, insertBooleanEnum, insert_withoutDeprecated]
      exact r.registration_withoutDeprecated _
  | insertDataTypeUnion url members doc =>
      cases h
      rw [perform, insertDataTypeUnion_withoutDeprecated]
      exact r.registration_withoutDeprecated _
  | assert id fact =>
      cases h
      rw [perform, perform, assert_withoutDeprecated]
      rcases r.assert id fact with cause | ⟨flag, after⟩ <;> rfl
  | addProperty id property =>
      cases hdeprecated : property.deprecated with
      | true => simp [Call.withoutDeprecated?, hdeprecated] at h
      | false =>
          simp only [Call.withoutDeprecated?, hdeprecated, Bool.false_eq_true, if_false,
            Option.some.injEq] at h
          rw [← h, perform, r.addProperty_withoutDeprecated id hdeprecated]
          exact r.change_withoutDeprecated _
  | addEnumValue id value =>
      cases h
      rw [perform, addEnumValue_withoutDeprecated]
      exact r.change_withoutDeprecated _
  | record diagnostic =>
      cases h
      rfl
  | verdict href fact =>
      cases h
      rw [perform, perform, verdict_withoutDeprecated]
      rcases r.verdict href fact with cause | flag <;> rfl
  | insertStandard =>
      cases h
      rw [perform, perform, insertStandard_withoutDeprecated]
      rcases r.insertStandard with ⟨after, cause | ids⟩ <;> rfl
  | load classes =>
      cases h
      rw [perform, perform, load_withoutDeprecated]
      rcases r.load classes with ⟨after, failure | _⟩ <;> rfl

theorem perform_of_deprecated {call : Call} (h : call.withoutDeprecated? = none) :
    (r.perform call).1.withoutDeprecated = r.withoutDeprecated := by
  cases call with
  | addProperty id property =>
      apply r.addProperty_of_deprecated id
      by_contra hcurrent
      simp [Call.withoutDeprecated?, hcurrent] at h
  | _ => cases h

/-- Calls that bring no deprecated properties make the registry without them. -/
theorem withoutDeprecated_run (calls : List Call) :
    (r.run calls).withoutDeprecated =
      r.withoutDeprecated.run (calls.filterMap Call.withoutDeprecated?) := by
  induction calls generalizing r with
  | nil => rfl
  | cons call calls ih =>
      show ((r.perform call).1.run calls).withoutDeprecated = _
      rw [ih, List.filterMap_cons]
      split
      · next hnone => rw [r.perform_of_deprecated hnone]
      · next kept hsome =>
          show _ = (r.withoutDeprecated.perform kept).1.run _
          rw [r.perform_withoutDeprecated hsome]
          rfl

end

end Registry
end VocabTypes
