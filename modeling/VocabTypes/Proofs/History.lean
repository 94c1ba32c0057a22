import VocabTypes.Proofs.WellFormed

/-!
# History

## The facts that were applied, and the children that they made

The history of a run lists the facts that were applied in it, those of loaded classes
included, each with the entity that it is about.  An entity gets a child for every
applied fact that names it as a superclass, in the order in which the facts were
applied, and in no other way.
-/

namespace VocabTypes

/-- A fact that was applied to the entity at a position. -/
structure Application where
  id : EntityId
  fact : Fact
deriving DecidableEq

/-- The term that a fact says its subject to be a subclass of. -/
def Fact.superclass? (fact : Fact) : Option Identifier :=
  match fact.statement? with
  | some (.subclassOf parent) => some parent
  | _ => none

namespace Registry

open Relation

/-!
# Applied facts

A fact counts as applied when asserting it succeeds and answers that it was used.
-/

def appliedFact (r : Registry) (id : EntityId) (fact : Fact) : List Application :=
  match r.assert id fact with
  | .ok (true, _) => [⟨id, fact⟩]
  | _ => []

def appliedAll (r : Registry) (id : EntityId) (href : String) :
    List (Fact × Bool) → List Application
  | [] => []
  | (fact, true) :: facts =>
      match r.assert id fact with
      | .error _ => []
      | .ok (_, next) => r.appliedFact id fact ++ next.appliedAll id href facts
  | (fact, false) :: facts => (r.record (factUnused href fact)).appliedAll id href facts

def appliedClass (r : Registry) (c : SourceClass) : List Application :=
  match r.verdicts c.subject.href c.facts with
  | .error _ => []
  | .ok used =>
      match r.insertClass c.subject c.allowString with
      | .error _ => []
      | .ok (id, next) => next.appliedAll id c.subject.href (c.facts.zip used)

def appliedLoad (r : Registry) : List SourceClass → List Application
  | [] => []
  | c :: classes =>
      match r.loadClass c with
      | (_, .error _) => r.appliedClass c
      | (next, .ok ()) => r.appliedClass c ++ next.appliedLoad classes

/-- The facts that a call applies, in the order in which it applies them. -/
def applied (r : Registry) : Call → List Application
  | .assert id fact => r.appliedFact id fact
  | .load classes => r.appliedLoad classes
  | _ => []

/-- The facts that some calls apply, one call after the other. -/
def history (r : Registry) : List Call → List Application
  | [] => []
  | call :: calls => r.applied call ++ (r.perform call).1.history calls

/-- The position of the entity that a fact names as a superclass of its subject. -/
def superclassId? (r : Registry) (fact : Fact) : Option EntityId :=
  fact.superclass?.bind fun parent => r.find? parent.href

/-- The subjects of those applied facts that name an entity as their superclass, in order. -/
def subjectsBelow (r : Registry) (parent : EntityId) (log : List Application) : List EntityId :=
  (log.filter fun a => r.superclassId? a.fact == some parent).map Application.id

theorem subjectsBelow_append (r : Registry) (parent : EntityId) (log later : List Application) :
    r.subjectsBelow parent (log ++ later) =
      r.subjectsBelow parent log ++ r.subjectsBelow parent later := by
  rw [subjectsBelow, List.filter_append, List.map_append, subjectsBelow, subjectsBelow]

/-!
# Accounting for children

The facts that were applied between two registries account for the children that the
later one lists in addition.  An applied fact names a registered entity, so entities
that are registered afterwards are none of those that it names.
-/

structure Accounted (r : Registry) (log : List Application) (s : Registry) : Prop where
  children : ∀ parent, s.childrenOf parent = r.childrenOf parent ++ s.subjectsBelow parent log
  found : ∀ a ∈ log, ∀ superclass, a.fact.superclass? = some superclass →
    ∃ id, s.find? superclass.href = some id

theorem accounted_refl (r : Registry) : Accounted r [] r where
  children := by
    intro parent
    rw [subjectsBelow, List.filter_nil, List.map_nil, List.append_nil]
  found := by
    intro a ha
    cases ha

/-- A change that keeps all children and forgets no IRI needs no account. -/
theorem Accounted.frame {r s t : Registry} {log : List Application} (h : Accounted r log s)
    (hchildren : t.childrenOf = s.childrenOf)
    (hfound : ∀ href id, s.find? href = some id → t.find? href = some id) :
    Accounted r log t where
  children := by
    intro parent
    have hsame : t.subjectsBelow parent log = s.subjectsBelow parent log := by
      unfold subjectsBelow
      congr 1
      apply List.filter_congr
      intro a ha
      unfold superclassId?
      cases hsuperclass : a.fact.superclass? with
      | none => rfl
      | some superclass =>
          rcases h.found a ha superclass hsuperclass with ⟨id, hid⟩
          rw [Option.bind_some, Option.bind_some, hid, hfound _ id hid]
    rw [hsame, hchildren]
    exact h.children parent
  found := by
    intro a ha superclass hsuperclass
    rcases h.found a ha superclass hsuperclass with ⟨id, hid⟩
    exact ⟨id, hfound _ id hid⟩

theorem Accounted.insert {r s t : Registry} {log : List Application} (h : Accounted r log s)
    {subject : Identifier} {kind : Kind} {allowString : Bool} {id : EntityId}
    (hinsert : s.insert subject kind allowString = .ok (id, t)) : Accounted r log t := by
  rcases insert_eq_ok_iff.mp hinsert with ⟨hfresh, _, rfl⟩
  apply h.frame (childrenOf_append_bare s subject kind allowString)
  intro href other hfound
  rw [find?_append, Entity.href_bare, if_neg (ne_of_find? hfound hfresh)]
  exact hfound

theorem Accounted.modify {r s : Registry} {log : List Application} (h : Accounted r log s)
    {id : EntityId} {f : Entity → Entity} (hf : ∀ e, (f e).children = e.children) :
    Accounted r log (s.modify id f) :=
  h.frame (childrenOf_modify hf) fun _ _ hfound => hfound

/-!
# Asserting a fact
-/

theorem Accounted.skip {r s : Registry} {log : List Application} (h : Accounted r log s)
    {a : Application} (ha : a.fact.superclass? = none) : Accounted r (log ++ [a]) s where
  children := by
    intro parent
    have hnone : s.subjectsBelow parent [a] = [] := by
      simp [subjectsBelow, superclassId?, ha]
    rw [subjectsBelow_append, hnone, List.append_nil]
    exact h.children parent
  found := by
    intro b hb superclass hsuperclass
    rcases List.mem_append.mp hb with hold | hlast
    · exact h.found b hold superclass hsuperclass
    · rw [List.mem_singleton.mp hlast, ha] at hsuperclass
      cases hsuperclass

theorem Accounted.link {r s : Registry} {log : List Application} (h : Accounted r log s)
    {id parent : EntityId} {above : Entity} {fact : Fact} {superclass : Identifier}
    (hfact : fact.superclass? = some superclass) (hfound : s.find? superclass.href = some parent)
    (habove : s.entity? parent = some above) :
    Accounted r (log ++ [⟨id, fact⟩]) (s.link id parent) where
  children := by
    intro other
    have hold := h.children other
    have hsame : (s.link id parent).subjectsBelow other = s.subjectsBelow other := rfl
    rw [childrenOf_link habove, hsame, subjectsBelow_append, ← List.append_assoc, ← hold]
    by_cases hother : parent = other
    · rw [if_pos hother]
      simp [subjectsBelow, superclassId?, hfact, hfound, hother]
    · rw [if_neg hother]
      simp [subjectsBelow, superclassId?, hfact, hfound, hother]
  found := by
    intro a ha target htarget
    rcases List.mem_append.mp ha with hold | hlast
    · exact h.found a hold target htarget
    · rw [List.mem_singleton.mp hlast, hfact] at htarget
      cases htarget
      exact ⟨parent, hfound⟩

theorem Accounted.apply {r s : Registry} {log : List Application} (h : Accounted r log s)
    (hs : s.WellFormed) {id : EntityId} {e : Entity} {fact : Fact} {statement : Statement}
    {change : Change} (hstatement : fact.statement? = some statement)
    (hentails : s.Entails e.href statement change) :
    Accounted r (log ++ [⟨id, fact⟩]) (s.apply id e change) := by
  cases hentails with
  | comment text =>
      have hskip : Accounted r (log ++ [⟨id, fact⟩]) s := by
        apply h.skip
        rw [Fact.superclass?, hstatement]
      have hcomment : Accounted r (log ++ [⟨id, fact⟩]) (s.setComment id text) :=
        hskip.modify fun _ => rfl
      rw [Registry.apply]
      split
      · exact hcomment.frame rfl fun _ _ hfound => hfound
      · exact hcomment
  | parent hfound _ =>
      rcases (hs.indexed _ _).mp hfound with ⟨above, habove, _⟩
      apply h.link _ hfound habove
      rw [Fact.superclass?, hstatement]
  | replacement hfound =>
      have hskip : Accounted r (log ++ [⟨id, fact⟩]) s := by
        apply h.skip
        rw [Fact.superclass?, hstatement]
      exact hskip.modify fun _ => rfl

theorem appliedFact_of_assert {r after : Registry} {id : EntityId} {fact : Fact} {flag : Bool}
    (h : r.assert id fact = .ok (flag, after)) :
    r.appliedFact id fact = if flag then [⟨id, fact⟩] else [] := by
  rw [appliedFact, h]
  cases flag with
  | true => rfl
  | false => rfl

theorem Accounted.assert {r s t : Registry} {log : List Application} (h : Accounted r log s)
    (hs : s.WellFormed) {id : EntityId} {fact : Fact} {flag : Bool}
    (hassert : s.assert id fact = .ok (flag, t)) :
    Accounted r (log ++ s.appliedFact id fact) t := by
  rw [appliedFact_of_assert hassert]
  rcases assert_eq_ok_iff.mp hassert with ⟨e, _, ⟨_, rfl, rfl⟩ | ⟨change, hchange, rfl, rfl⟩⟩
  · simpa using h
  · rcases change?_eq_ok_some_iff.mp hchange with ⟨statement, hstatement, hentails⟩
    exact h.apply hs hstatement hentails

/-!
# Batches

Each batch is followed up to where something in it is refused.
-/

theorem Accounted.assertAll {r s : Registry} {log : List Application} (h : Accounted r log s)
    (hs : s.WellFormed) (id : EntityId) (href : String) (facts : List (Fact × Bool)) :
    Accounted r (log ++ s.appliedAll id href facts) (s.assertAll id href facts).1 := by
  induction facts generalizing s log with
  | nil =>
      rw [appliedAll, List.append_nil]
      exact h
  | cons judged facts ih =>
      rcases judged with ⟨fact, flag⟩
      cases flag with
      | false =>
          rw [Registry.assertAll, appliedAll]
          exact ih (h.frame rfl fun _ _ hfound => hfound) (hs.step Step.record)
      | true =>
          rw [Registry.assertAll, appliedAll]
          cases hassert : s.assert id fact with
          | error cause =>
              rw [List.append_nil]
              exact h
          | ok answer =>
              rcases answer with ⟨flag, next⟩
              have hnext := ih (h.assert hs hassert) (hs.steps (assert_steps hassert))
              rw [List.append_assoc] at hnext
              exact hnext

theorem Accounted.loadClass {r s : Registry} {log : List Application} (h : Accounted r log s)
    (hs : s.WellFormed) (c : SourceClass) :
    Accounted r (log ++ s.appliedClass c) (s.loadClass c).1 := by
  unfold appliedClass
  cases hverdicts : s.verdicts c.subject.href c.facts with
  | error cause =>
      rw [loadClass_eq_of_refused hverdicts, List.append_nil]
      exact h
  | ok used =>
      cases hinsert : s.insertClass c.subject c.allowString with
      | error cause =>
          simp only [loadClass_eq_of_taken hverdicts hinsert, List.append_nil]
          exact h
      | ok answer =>
          rcases answer with ⟨id, next⟩
          have hnext : next.WellFormed :=
            hs.step (step_of_insert (admitsKind_of_not_union rfl) hinsert)
          have hall := (h.insert hinsert).assertAll hnext id c.subject.href (c.facts.zip used)
          cases hassert : next.assertAll id c.subject.href (c.facts.zip used) with
          | mk after outcome =>
              rw [hassert] at hall
              rw [loadClass_eq_of_registered hverdicts hinsert hassert]
              cases outcome with
              | error cause => exact hall
              | ok _ => exact hall.modify fun _ => rfl

theorem Accounted.load {r s : Registry} {log : List Application} (h : Accounted r log s)
    (hs : s.WellFormed) (classes : List SourceClass) :
    Accounted r (log ++ s.appliedLoad classes) (s.load classes).1 := by
  induction classes generalizing s log with
  | nil =>
      rw [appliedLoad, List.append_nil]
      exact h
  | cons c classes ih =>
      have hclass := h.loadClass hs c
      have hsteps := s.loadClass_steps c
      rw [Registry.load, appliedLoad]
      cases hload : s.loadClass c with
      | mk next outcome =>
          rw [hload] at hclass hsteps
          cases outcome with
          | error failure => exact hclass
          | ok _ =>
              have hrest := ih hclass (hs.steps hsteps)
              rw [List.append_assoc] at hrest
              exact hrest

theorem Accounted.insertScalars {r s : Registry} {log : List Application}
    (h : Accounted r log s) (scalars : List (String × Kind)) :
    Accounted r log (s.insertScalars scalars).1 := by
  induction scalars generalizing s with
  | nil => exact h
  | cons scalar rest ih =>
      rcases scalar with ⟨name, kind⟩
      rw [Registry.insertScalars]
      cases hinsert : s.insert (.ofUrl (standardUrl name)) kind false with
      | error cause => exact h
      | ok answer =>
          rcases answer with ⟨id, next⟩
          have hrest := ih (h.insert hinsert)
          cases hscalars : next.insertScalars rest with
          | mk after outcome =>
              rw [hscalars] at hrest
              cases outcome with
              | error cause => simpa [hscalars] using hrest
              | ok ids => simpa [hscalars] using hrest

theorem Accounted.insertStandard {r s : Registry} {log : List Application}
    (h : Accounted r log s) : Accounted r log s.insertStandard.1 := by
  have hrest := h.insertScalars standardScalars
  unfold Registry.insertStandard
  cases hscalars : s.insertScalars standardScalars with
  | mk after outcome =>
      rw [hscalars] at hrest
      cases outcome with
      | error cause => exact hrest
      | ok ids =>
          cases hunion : after.insertDataTypeUnion (standardUrl standardUnion) ids
              standardUnionDoc with
          | error cause => simpa [hunion] using hrest
          | ok answer =>
              rcases answer with ⟨id, last⟩
              simpa [hunion] using hrest.insert (insertDataTypeUnion_eq_ok hunion).right

/-!
# Calls and runs
-/

theorem Accounted.registration {r s : Registry} {log : List Application}
    (h : Accounted r log s) {outcome : Except Rejection (EntityId × Registry)}
    (houtcome : ∀ id after, outcome = .ok (id, after) → Accounted r log after) :
    Accounted r log (s.registration outcome).1 := by
  cases outcome with
  | error cause => exact h
  | ok answer =>
      rcases answer with ⟨id, after⟩
      exact houtcome id after rfl

theorem Accounted.perform {r s : Registry} {log : List Application} (h : Accounted r log s)
    (hs : s.WellFormed) (call : Call) :
    Accounted r (log ++ s.applied call) (s.perform call).1 := by
  -- Most calls apply no fact.
  have hquiet : ∀ t, Accounted r log t → Accounted r (log ++ []) t := by
    intro t ht
    rw [List.append_nil]
    exact ht
  cases call with
  | insertClass subject allowString =>
      exact hquiet _ (h.registration fun _ _ hinsert => h.insert hinsert)
  | insertBuiltin url typeName doc =>
      exact hquiet _ (h.registration fun _ _ hinsert => h.insert hinsert)
  | insertBooleanEnum url trueUrl falseUrl doc =>
      exact hquiet _ (h.registration fun _ _ hinsert => h.insert hinsert)
  | insertDataTypeUnion url members doc =>
      apply hquiet
      apply h.registration
      intro id after hinsert
      exact h.insert (insertDataTypeUnion_eq_ok hinsert).right
  | assert id fact =>
      cases hassert : s.assert id fact with
      | error cause => simpa [Registry.perform, applied, appliedFact, hassert] using h
      | ok answer =>
          rcases answer with ⟨flag, after⟩
          simpa [Registry.perform, applied, hassert] using h.assert hs hassert
  | addProperty id property =>
      apply hquiet
      cases hadd : s.addProperty id property with
      | error cause => simpa [Registry.perform, change, hadd] using h
      | ok after =>
          rcases addProperty_eq_ok hadd with ⟨_, rfl⟩
          simpa [Registry.perform, change, hadd] using h.modify fun _ => by rfl
  | addEnumValue id value =>
      apply hquiet
      cases hadd : s.addEnumValue id value with
      | error cause => simpa [Registry.perform, change, hadd] using h
      | ok after =>
          rcases addEnumValue_eq_ok hadd with ⟨_, rfl⟩
          simpa [Registry.perform, change, hadd] using h.modify fun _ => by rfl
  | record diagnostic => exact hquiet _ (h.frame rfl fun _ _ hfound => hfound)
  | verdict href fact =>
      apply hquiet
      cases hverdict : s.verdict href fact with
      | error cause => simpa [Registry.perform, hverdict] using h
      | ok flag => simpa [Registry.perform, hverdict] using h
  | insertStandard =>
      apply hquiet
      have hafter := h.insertStandard
      cases hstandard : s.insertStandard with
      | mk after outcome =>
          rw [hstandard] at hafter
          cases outcome with
          | error cause => simpa [Registry.perform, hstandard] using hafter
          | ok ids => simpa [Registry.perform, hstandard] using hafter
  | load classes =>
      have hafter := h.load hs classes
      cases hload : s.load classes with
      | mk after outcome =>
          rw [hload] at hafter
          cases outcome with
          | error failure => simpa [Registry.perform, applied, hload] using hafter
          | ok _ => simpa [Registry.perform, applied, hload] using hafter

theorem Accounted.run {r s : Registry} {log : List Application} (h : Accounted r log s)
    (hs : s.WellFormed) (calls : List Call) :
    Accounted r (log ++ s.history calls) (s.run calls) := by
  induction calls generalizing s log with
  | nil =>
      rw [history, List.append_nil]
      exact h
  | cons call calls ih =>
      have hrest := ih (h.perform hs call) (hs.steps (s.perform_steps call))
      rw [List.append_assoc] at hrest
      exact hrest

/--
After any run an entity is listed as a child as often as it lists the parent.  The
children of an entity are the subjects of the applied facts that name it as a superclass,
in the order in which they were applied over the whole run, and whatever is called next
adds the subjects of the facts that it applies, also when it is refused half-way.
-/
theorem children_follow_history (calls : List Call) :
    (∀ parent child,
      ((empty.run calls).childrenOf parent).count child =
        ((empty.run calls).parentsOf child).count parent) ∧
    (∀ parent, (empty.run calls).childrenOf parent =
      (empty.run calls).subjectsBelow parent (empty.history calls)) ∧
    ∀ call,
      (∀ parent child,
        (((empty.run calls).perform call).1.childrenOf parent).count child =
          (((empty.run calls).perform call).1.parentsOf child).count parent) ∧
      ∀ parent, ((empty.run calls).perform call).1.childrenOf parent =
        (empty.run calls).childrenOf parent ++
          ((empty.run calls).perform call).1.subjectsBelow parent
            ((empty.run calls).applied call) := by
  have hrun : (empty.run calls).WellFormed := wellFormed_empty.steps (empty.run_steps calls)
  refine ⟨hrun.mirrored, ?_, ?_⟩
  · intro parent
    exact ((accounted_refl empty).run wellFormed_empty calls).children parent
  · intro call
    have hafter := hrun.steps ((empty.run calls).perform_steps call)
    refine ⟨hafter.mirrored, ?_⟩
    exact ((accounted_refl (empty.run calls)).perform hrun call).children

end Registry
end VocabTypes
