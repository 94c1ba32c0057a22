import Mathlib.Logic.Relation
import VocabTypes.Proofs.Calls

/-!
# Steps of a registry

## What the calls do to the table

However many calls there are, they change the table in six ways only.  Each way
comes with what the call has checked before, and every call is a sequence of such
steps, so whatever all steps preserve holds of every reachable registry.
-/

namespace VocabTypes
namespace Registry

open Relation

/-!
# The six steps
-/

/-- What has been checked of a kind before an entity of that kind is registered. -/
def AdmitsKind (r : Registry) (kind : Kind) : Prop :=
  ∀ members doc, kind = .dataTypeUnion members doc ->
    r.dataTypeUnion? = none ∧ ∀ member ∈ members, r.isScalar member = true

inductive Step (r : Registry) : Registry → Prop where
  | insert {subject : Identifier} {kind : Kind} {allowString : Bool}
      (fresh : r.find? subject.href = none) (admitted : r.AdmitsKind kind) :
      Step r (r.append (.bare subject kind allowString))
  | comment {id : EntityId} {e : Entity} {text : String} (issued : r.entity? id = some e) :
      Step r (r.setComment id text)
  | link {child parent : EntityId} {e : Entity} {href : String}
      (issued : r.entity? child = some e) (found : r.find? href = some parent)
      (open_ : r.closesCycle e.href parent = false) :
      Step r (r.link child parent)
  | replacement {id target : EntityId} {e : Entity} {href : String}
      (issued : r.entity? id = some e) (found : r.find? href = some target) :
      Step r (r.addReplacement id target)
  | members {id : EntityId} {e : Entity} {properties : List Property}
      {values : List EnumValue} (issued : r.entity? id = some e) :
      Step r (r.modify id fun e =>
        { e with
          properties := e.properties ++ properties
          enumValues := e.enumValues ++ values })
  | record {diagnostic : Diagnostic} :
      Step r (r.record diagnostic)

abbrev Steps : Registry → Registry → Prop :=
  ReflTransGen Step

theorem Step.size_le {r s : Registry} (h : Step r s) : r.size ≤ s.size := by
  cases h with
  | insert => simp
  | comment => simp
  | link => simp
  | replacement => simp
  | members => simp
  | record => simp

theorem Steps.size_le {r s : Registry} (h : Steps r s) : r.size ≤ s.size := by
  induction h with
  | refl => exact Nat.le_refl r.size
  | tail _ hstep ih => exact Nat.le_trans ih hstep.size_le

/-!
# Registration
-/

theorem checkUnion_eq_ok_iff {r : Registry} {href : String} {members : List EntityId} :
    r.checkUnion href members = .ok () ↔
      r.dataTypeUnion? = none ∧ ∀ member ∈ members, r.isScalar member = true := by
  unfold checkUnion
  cases hunion : r.dataTypeUnion? with
  | some existing => simp
  | none =>
      cases hmember : members.find? fun id => !r.isScalar id with
      | some id =>
          have hbad := List.find?_some hmember
          have hmem := List.mem_of_find?_eq_some hmember
          constructor
          · intro h
            cases h
          · intro hchecks
            rcases hchecks with ⟨_, hall⟩
            rw [hall id hmem] at hbad
            cases hbad
      | none =>
          constructor
          · intro _
            refine ⟨rfl, ?_⟩
            intro member hmem
            simpa using List.find?_eq_none.mp hmember member hmem
          · intro _
            rfl

theorem admitsKind_of_not_union {r : Registry} {kind : Kind}
    (h : kind.isDataTypeUnion = false) : r.AdmitsKind kind := by
  intro members doc hkind
  rw [hkind] at h
  cases h

theorem step_of_insert {r after : Registry} {subject : Identifier} {kind : Kind}
    {allowString : Bool} {id : EntityId} (hkind : r.AdmitsKind kind)
    (h : r.insert subject kind allowString = .ok (id, after)) : Step r after := by
  rcases insert_eq_ok_iff.mp h with ⟨hfresh, _, rfl⟩
  exact Step.insert hfresh hkind

theorem insertDataTypeUnion_eq_ok {r after : Registry} {url doc : String}
    {members : List EntityId} {id : EntityId}
    (h : r.insertDataTypeUnion url members doc = .ok (id, after)) :
    r.AdmitsKind (.dataTypeUnion members doc) ∧
      r.insert (.ofUrl url) (.dataTypeUnion members doc) false = .ok (id, after) := by
  unfold insertDataTypeUnion at h
  cases hcheck : r.checkUnion url members with
  | error cause =>
      rw [hcheck] at h
      cases h
  | ok checked =>
      rw [hcheck] at h
      constructor
      · intro others text hkind
        cases hkind
        exact checkUnion_eq_ok_iff.mp hcheck
      · exact h

theorem step_of_insertDataTypeUnion {r after : Registry} {url doc : String}
    {members : List EntityId} {id : EntityId}
    (h : r.insertDataTypeUnion url members doc = .ok (id, after)) : Step r after := by
  rcases insertDataTypeUnion_eq_ok h with ⟨hkind, hinsert⟩
  exact step_of_insert hkind hinsert

theorem registration_steps {r : Registry} {outcome : Except Rejection (EntityId × Registry)}
    (h : ∀ id after, outcome = .ok (id, after) → Step r after) :
    Steps r (r.registration outcome).1 := by
  cases outcome with
  | error cause => exact ReflTransGen.refl
  | ok answer =>
      rcases answer with ⟨id, after⟩
      exact ReflTransGen.single (h id after rfl)

/-!
# Assertions
-/

/-- The change that a statement amounts to, with what has been checked for it. -/
inductive Entails (r : Registry) (href : String) : Statement → Change → Prop where
  | comment (text : String) :
      Entails r href (.comment text) (.comment text)
  | parent {target : Identifier} {id : EntityId} (found : r.find? target.href = some id)
      (open_ : r.closesCycle href id = false) :
      Entails r href (.subclassOf target) (.parent id)
  | replacement {target : Identifier} {id : EntityId} (found : r.find? target.href = some id) :
      Entails r href (.supersededBy target) (.replacement id)

theorem changeOf_eq_ok_iff {r : Registry} {href : String} {statement : Statement}
    {change : Change} :
    r.changeOf href statement = .ok change ↔ r.Entails href statement change := by
  constructor
  · intro h
    cases statement with
    | comment text =>
        cases h
        exact Entails.comment text
    | subclassOf target =>
        rw [changeOf] at h
        cases hfound : r.find? target.href with
        | none =>
            rw [hfound] at h
            cases h
        | some id =>
            cases hcycle : r.closesCycle href id with
            | true =>
                simp [hfound, hcycle] at h
            | false =>
                simp only [hfound, hcycle] at h
                cases h
                exact Entails.parent hfound hcycle
    | supersededBy target =>
        rw [changeOf] at h
        cases hfound : r.find? target.href with
        | none =>
            rw [hfound] at h
            cases h
        | some id =>
            rw [hfound] at h
            cases h
            exact Entails.replacement hfound
  · intro h
    cases h with
    | comment text => rfl
    | parent hfound hopen => simp [changeOf, hfound, hopen]
    | replacement hfound => simp [changeOf, hfound]

theorem change?_eq_ok_none_iff {r : Registry} {href : String} {fact : Fact} :
    r.change? href fact = .ok none ↔ fact.statement? = none := by
  unfold change?
  cases fact.statement? with
  | none => simp
  | some statement =>
      cases hchange : r.changeOf href statement with
      | error cause => simp [hchange]
      | ok change => simp [hchange]

theorem change?_eq_ok_some_iff {r : Registry} {href : String} {fact : Fact}
    {change : Change} :
    r.change? href fact = .ok (some change) ↔
      ∃ statement, fact.statement? = some statement ∧ r.Entails href statement change := by
  unfold change?
  cases fact.statement? with
  | none => simp
  | some statement =>
      simp only [← changeOf_eq_ok_iff]
      cases hchange : r.changeOf href statement with
      | error cause => simp [hchange]
      | ok found => simp [hchange]

theorem assert_eq_ok_iff {r after : Registry} {id : EntityId} {fact : Fact} {flag : Bool} :
    r.assert id fact = .ok (flag, after) ↔
      ∃ e, r.entity? id = some e ∧
        ((r.change? e.href fact = .ok none ∧ flag = false ∧ after = r) ∨
          ∃ change, r.change? e.href fact = .ok (some change) ∧ flag = true ∧
            after = r.apply id e change) := by
  unfold assert
  cases hentity : r.entity? id with
  | none => simp
  | some e =>
      cases hchange : r.change? e.href fact with
      | error cause => simp [hchange]
      | ok change =>
          cases change with
          | none => simp [hchange, eq_comm]
          | some change => simp [hchange, eq_comm]

theorem apply_steps {r : Registry} {id : EntityId} {e : Entity} {statement : Statement}
    {change : Change} (hentity : r.entity? id = some e)
    (hchange : r.Entails e.href statement change) :
    Steps r (r.apply id e change) := by
  cases hchange with
  | comment text =>
      have hcomment : Step r (r.setComment id text) := Step.comment hentity
      rw [apply]
      split
      · exact (ReflTransGen.single hcomment).tail Step.record
      · exact ReflTransGen.single hcomment
  | parent hfound hopen =>
      exact ReflTransGen.single (Step.link hentity hfound hopen)
  | replacement hfound =>
      exact ReflTransGen.single (Step.replacement hentity hfound)

theorem assert_steps {r after : Registry} {id : EntityId} {fact : Fact} {flag : Bool}
    (h : r.assert id fact = .ok (flag, after)) : Steps r after := by
  rcases assert_eq_ok_iff.mp h with
    ⟨e, hentity, ⟨_, _, rfl⟩ | ⟨change, hchange, _, rfl⟩⟩
  · exact ReflTransGen.refl
  · rcases change?_eq_ok_some_iff.mp hchange with ⟨statement, _, hentails⟩
    exact apply_steps hentity hentails

/-!
# Members
-/

theorem addProperty_eq_ok {r after : Registry} {id : EntityId} {property : Property}
    (h : r.addProperty id property = .ok after) :
    id < r.size ∧
      after = r.modify id fun e => { e with properties := e.properties ++ [property] } := by
  unfold addProperty at h
  split at h
  · next hissued =>
      cases h
      exact ⟨hissued, rfl⟩
  · cases h

theorem addEnumValue_eq_ok {r after : Registry} {id : EntityId} {value : EnumValue}
    (h : r.addEnumValue id value = .ok after) :
    id < r.size ∧
      after = r.modify id fun e => { e with enumValues := e.enumValues ++ [value] } := by
  unfold addEnumValue at h
  split at h
  · next hissued =>
      cases h
      exact ⟨hissued, rfl⟩
  · cases h

theorem addProperty_steps {r after : Registry} {id : EntityId} {property : Property}
    (h : r.addProperty id property = .ok after) : Step r after := by
  rcases addProperty_eq_ok h with ⟨hissued, hafter⟩
  rcases (r.lt_size_iff id).mp hissued with ⟨e, hentity⟩
  have hstep := @Step.members r id e [property] [] hentity
  rw [hafter]
  simpa using hstep

theorem addEnumValue_steps {r after : Registry} {id : EntityId} {value : EnumValue}
    (h : r.addEnumValue id value = .ok after) : Step r after := by
  rcases addEnumValue_eq_ok h with ⟨hissued, hafter⟩
  rcases (r.lt_size_iff id).mp hissued with ⟨e, hentity⟩
  have hstep := @Step.members r id e [] [value] hentity
  rw [hafter]
  simpa using hstep

/-!
# Batches

A batch goes on until something in it is refused, so each one is followed up to
there.
-/

theorem insertScalars_steps (r : Registry) (scalars : List (String × Kind))
    (hscalars : ∀ scalar ∈ scalars, scalar.2.isDataTypeUnion = false) :
    Steps r (r.insertScalars scalars).1 := by
  induction scalars generalizing r with
  | nil => exact ReflTransGen.refl
  | cons scalar rest ih =>
      rcases scalar with ⟨name, kind⟩
      have hkind : r.AdmitsKind kind :=
        admitsKind_of_not_union (hscalars (name, kind) List.mem_cons_self)
      have hrest : ∀ scalar ∈ rest, scalar.2.isDataTypeUnion = false := by
        intro scalar hmem
        exact hscalars scalar (List.mem_cons_of_mem _ hmem)
      rw [insertScalars]
      cases hinsert : r.insert (.ofUrl (standardUrl name)) kind false with
      | error cause => exact ReflTransGen.refl
      | ok answer =>
          rcases answer with ⟨id, next⟩
          have hsteps := ReflTransGen.head (step_of_insert hkind hinsert) (ih next hrest)
          cases hscalars : next.insertScalars rest with
          | mk after outcome =>
              rw [hscalars] at hsteps
              cases outcome with
              | error cause => simpa [hscalars] using hsteps
              | ok ids => simpa [hscalars] using hsteps

theorem insertStandard_steps (r : Registry) : Steps r r.insertStandard.1 := by
  have hsteps := r.insertScalars_steps standardScalars (by decide)
  unfold insertStandard
  cases hscalars : r.insertScalars standardScalars with
  | mk after outcome =>
      rw [hscalars] at hsteps
      cases outcome with
      | error cause => exact hsteps
      | ok ids =>
          cases hunion : after.insertDataTypeUnion (standardUrl standardUnion) ids
              standardUnionDoc with
          | error cause => simpa [hunion] using hsteps
          | ok answer =>
              rcases answer with ⟨id, last⟩
              simpa [hunion] using hsteps.tail (step_of_insertDataTypeUnion hunion)

theorem assertAll_steps (r : Registry) (id : EntityId) (href : String)
    (facts : List (Fact × Bool)) : Steps r (r.assertAll id href facts).1 := by
  induction facts generalizing r with
  | nil => exact ReflTransGen.refl
  | cons judged facts ih =>
      rcases judged with ⟨fact, flag⟩
      cases flag with
      | false =>
          rw [assertAll]
          exact ReflTransGen.head Step.record (ih _)
      | true =>
          rw [assertAll]
          cases hassert : r.assert id fact with
          | error cause => exact ReflTransGen.refl
          | ok answer =>
              rcases answer with ⟨flag, next⟩
              exact (assert_steps hassert).trans (ih next)

theorem loadClass_eq_of_refused {r : Registry} {c : SourceClass} {cause : Rejection}
    (h : r.verdicts c.subject.href c.facts = .error cause) :
    r.loadClass c = (r, .error ⟨.facts, c.subject.href, cause⟩) := by
  simp [loadClass, h]

theorem loadClass_eq_of_taken {r : Registry} {c : SourceClass} {used : List Bool}
    {cause : Rejection} (hverdicts : r.verdicts c.subject.href c.facts = .ok used)
    (hinsert : r.insertClass c.subject c.allowString = .error cause) :
    r.loadClass c = (r, .error ⟨.registration, c.subject.href, cause⟩) := by
  simp [loadClass, hverdicts, hinsert]

theorem loadClass_eq_of_registered {r next after : Registry} {c : SourceClass}
    {used : List Bool} {id : EntityId} {outcome : Except Rejection Unit}
    (hverdicts : r.verdicts c.subject.href c.facts = .ok used)
    (hinsert : r.insertClass c.subject c.allowString = .ok (id, next))
    (hassert : next.assertAll id c.subject.href (c.facts.zip used) = (after, outcome)) :
    r.loadClass c =
      match outcome with
      | .error cause => (after, .error ⟨.facts, c.subject.href, cause⟩)
      | .ok () => (after.addMembers id c, .ok ()) := by
  cases outcome with
  | error cause => simp [loadClass, hverdicts, hinsert, hassert]
  | ok _ => simp [loadClass, hverdicts, hinsert, hassert]

theorem loadClass_steps (r : Registry) (c : SourceClass) : Steps r (r.loadClass c).1 := by
  cases hverdicts : r.verdicts c.subject.href c.facts with
  | error cause =>
      rw [loadClass_eq_of_refused hverdicts]
  | ok used =>
      cases hinsert : r.insertClass c.subject c.allowString with
      | error cause =>
          rw [loadClass_eq_of_taken hverdicts hinsert]
      | ok answer =>
          rcases answer with ⟨id, next⟩
          have hstep : Step r next := step_of_insert (admitsKind_of_not_union rfl) hinsert
          have hall := next.assertAll_steps id c.subject.href (c.facts.zip used)
          cases hassert : next.assertAll id c.subject.href (c.facts.zip used) with
          | mk after outcome =>
              rw [hassert] at hall
              rw [loadClass_eq_of_registered hverdicts hinsert hassert]
              cases outcome with
              | error cause => exact ReflTransGen.head hstep hall
              | ok _ =>
                  rcases insert_eq_ok_iff.mp hinsert with ⟨_, rfl, rfl⟩
                  have hlt : r.size < after.size :=
                    Nat.lt_of_lt_of_le (by simp) (Steps.size_le hall)
                  rcases (after.lt_size_iff r.size).mp hlt with ⟨e, hentity⟩
                  exact (ReflTransGen.head hstep hall).tail (Step.members hentity)

theorem load_steps (r : Registry) (classes : List SourceClass) :
    Steps r (r.load classes).1 := by
  induction classes generalizing r with
  | nil => exact ReflTransGen.refl
  | cons c classes ih =>
      have hclass := r.loadClass_steps c
      rw [load]
      cases hload : r.loadClass c with
      | mk next outcome =>
          rw [hload] at hclass
          cases outcome with
          | error failure => exact hclass
          | ok _ => exact hclass.trans (ih next)

/-!
# Calls and runs
-/

theorem perform_steps (r : Registry) (call : Call) : Steps r (r.perform call).1 := by
  cases call with
  | insertClass subject allowString =>
      apply registration_steps
      intro id after h
      exact step_of_insert (admitsKind_of_not_union rfl) h
  | insertBuiltin url typeName doc =>
      apply registration_steps
      intro id after h
      exact step_of_insert (admitsKind_of_not_union rfl) h
  | insertBooleanEnum url trueUrl falseUrl doc =>
      apply registration_steps
      intro id after h
      exact step_of_insert (admitsKind_of_not_union rfl) h
  | insertDataTypeUnion url members doc =>
      apply registration_steps
      intro id after h
      exact step_of_insertDataTypeUnion h
  | assert id fact =>
      cases hassert : r.assert id fact with
      | error cause => simpa [perform, hassert] using ReflTransGen.refl
      | ok answer => simpa [perform, hassert] using assert_steps hassert
  | addProperty id property =>
      cases hadd : r.addProperty id property with
      | error cause => simpa [perform, change, hadd] using ReflTransGen.refl
      | ok after =>
          simpa [perform, change, hadd] using ReflTransGen.single (addProperty_steps hadd)
  | addEnumValue id value =>
      cases hadd : r.addEnumValue id value with
      | error cause => simpa [perform, change, hadd] using ReflTransGen.refl
      | ok after =>
          simpa [perform, change, hadd] using ReflTransGen.single (addEnumValue_steps hadd)
  | record diagnostic => exact ReflTransGen.single Step.record
  | verdict href fact =>
      cases hverdict : r.verdict href fact with
      | error cause => simpa [perform, hverdict] using ReflTransGen.refl
      | ok flag => simpa [perform, hverdict] using ReflTransGen.refl
  | insertStandard =>
      have hsteps := r.insertStandard_steps
      cases hstandard : r.insertStandard with
      | mk after outcome =>
          rw [hstandard] at hsteps
          cases outcome with
          | error cause => simpa [perform, hstandard] using hsteps
          | ok ids => simpa [perform, hstandard] using hsteps
  | load classes =>
      have hsteps := r.load_steps classes
      cases hload : r.load classes with
      | mk after outcome =>
          rw [hload] at hsteps
          cases outcome with
          | error failure => simpa [perform, hload] using hsteps
          | ok _ => simpa [perform, hload] using hsteps

theorem run_steps (r : Registry) (calls : List Call) : Steps r (r.run calls) := by
  induction calls generalizing r with
  | nil => exact ReflTransGen.refl
  | cons call calls ih => exact (r.perform_steps call).trans (ih _)

/-- What the empty registry satisfies and every step preserves holds in every reachable one. -/
theorem Reachable.induction {P : Registry → Prop} (hempty : P empty)
    (hstep : ∀ r s, P r → Step r s → P s) {r : Registry} (hr : r.Reachable) : P r := by
  rcases hr with ⟨calls, rfl⟩
  have hsteps := empty.run_steps calls
  generalize empty.run calls = r at hsteps ⊢
  induction hsteps with
  | refl => exact hempty
  | tail _ hlast ih => exact hstep _ _ ih hlast

end Registry
end VocabTypes
