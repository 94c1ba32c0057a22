import VocabTypes.Proofs.WellFormed

/-!
# Loading whole classes

## A class that is refused leaves nothing behind

The facts of a class are judged before the class is registered and asserted one by
one afterwards.  In between, the registry grows by a class that nothing names as a
parent, and links lead out of that class only.  So each fact amounts to the change
that it was judged to amount to, and asserting it is not refused.
-/

namespace VocabTypes
namespace Registry

open Relation

/-!
# Judging facts
-/

theorem verdict_eq_ok_iff {r : Registry} {href : String} {fact : Fact} {flag : Bool} :
    r.verdict href fact = .ok flag ↔
      (fact.statement? = none ∧ flag = false) ∨
        ∃ statement change, fact.statement? = some statement ∧
          r.Entails href statement change ∧ flag = true := by
  unfold verdict
  cases hchange : r.change? href fact with
  | error cause =>
      constructor
      · intro h
        cases h
      · intro hjudged
        rcases hjudged with ⟨hnone, _⟩ | ⟨statement, change, hstatement, hentails, _⟩
        · rw [change?_eq_ok_none_iff.mpr hnone] at hchange
          cases hchange
        · rw [change?_eq_ok_some_iff.mpr ⟨statement, hstatement, hentails⟩] at hchange
          cases hchange
  | ok found =>
      cases found with
      | none =>
          have hnone := change?_eq_ok_none_iff.mp hchange
          simp [hnone, eq_comm]
      | some change =>
          rcases change?_eq_ok_some_iff.mp hchange with ⟨statement, hstatement, hentails⟩
          constructor
          · intro h
            cases h
            exact Or.inr ⟨statement, change, hstatement, hentails, rfl⟩
          · intro hjudged
            rcases hjudged with ⟨hnone, _⟩ | ⟨_, _, _, _, rfl⟩
            · rw [hnone] at hstatement
              cases hstatement
            · rfl

theorem verdicts_eq_ok {r : Registry} {href : String} {facts : List Fact} {used : List Bool}
    (h : r.verdicts href facts = .ok used) :
    used.length = facts.length ∧
      ∀ fact flag, (fact, flag) ∈ facts.zip used → r.verdict href fact = .ok flag := by
  induction facts generalizing used with
  | nil =>
      cases h
      exact ⟨rfl, fun _ _ hmem => by cases hmem⟩
  | cons first facts ih =>
      rw [verdicts] at h
      cases hfirst : r.verdict href first with
      | error cause =>
          rw [hfirst] at h
          cases h
      | ok flag =>
          cases hrest : r.verdicts href facts with
          | error cause =>
              rw [hfirst, hrest] at h
              cases h
          | ok flags =>
              rw [hfirst, hrest] at h
              cases h
              rcases ih hrest with ⟨hlength, hall⟩
              constructor
              · rw [List.length_cons, List.length_cons, hlength]
              · intro fact other hmem
                rw [List.zip_cons_cons] at hmem
                rcases List.mem_cons.mp hmem with hhead | htail
                · cases hhead
                  exact hfirst
                · exact hall fact other htail

/-!
# While the facts of a new class are asserted

The invariant relates the registry in which the facts were judged to the one that
they are asserted in.
-/

/-- A registry `s` that has grown out of `b` by a class at `id` which nothing descends from. -/
structure Grown (b : Registry) (id : EntityId) (href : String) (s : Registry) : Prop where
  wellFormed : s.WellFormed
  known : s.find? href = some id
  found : ∀ other target, b.find? other = some target → s.find? other = some target ∧ target ≠ id
  childless : ∀ other, ¬ s.IsParent other id

theorem Grown.not_reaches {b s : Registry} {id target : EntityId} {href : String}
    (h : Grown b id href s) (hne : target ≠ id) : ¬ ReflTransGen s.IsParent target id := by
  intro hpath
  rcases ReflTransGen.cases_tail hpath with rfl | ⟨last, _, hlast⟩
  · exact hne rfl
  · exact h.childless last hlast

/-- What a statement amounts to is the same before the class is registered and after. -/
theorem Grown.entails {b s : Registry} {id : EntityId} {href : String}
    (h : Grown b id href s) {statement : Statement} {change : Change}
    (hentails : b.Entails href statement change) : s.Entails href statement change := by
  cases hentails with
  | comment text => exact Entails.comment text
  | parent hfound hopen =>
      rename_i target parent
      rcases h.found target.href parent hfound with ⟨hstill, hne⟩
      apply Entails.parent hstill
      rw [closesCycle, h.known, Option.any_some, Bool.eq_false_iff]
      intro hsubsumes
      exact h.not_reaches hne (subsumes_iff.mp hsubsumes)
  | replacement hfound =>
      rename_i target replacement
      exact Entails.replacement (h.found target.href replacement hfound).left

theorem find?_apply (r : Registry) (id : EntityId) (e : Entity) (change : Change)
    (href : String) : (r.apply id e change).find? href = r.find? href := by
  cases change with
  | comment text =>
      rw [apply]
      split
      · rw [find?_record, find?_setComment]
      · exact r.find?_setComment id text href
  | parent target => exact r.find?_link id target href
  | replacement target => exact r.find?_addReplacement id target href

theorem isParent_apply {r : Registry} {id : EntityId} {e : Entity} {change : Change}
    (he : r.entity? id = some e) {x y : EntityId} (h : (r.apply id e change).IsParent x y) :
    r.IsParent x y ∨ (x = id ∧ change = .parent y) := by
  cases change with
  | comment text =>
      have hsame : (r.setComment id text).parentsOf = r.parentsOf :=
        parentsOf_modify fun _ => rfl
      rw [apply] at h
      split at h
      · exact Or.inl (by rwa [IsParent, ← hsame])
      · exact Or.inl (by rwa [IsParent, ← hsame])
  | parent target =>
      rcases isParent_link he x y h with hold | ⟨hx, rfl⟩
      · exact Or.inl hold
      · exact Or.inr ⟨hx, rfl⟩
  | replacement target =>
      have hsame : (r.addReplacement id target).parentsOf = r.parentsOf :=
        parentsOf_modify fun _ => rfl
      exact Or.inl (by rwa [IsParent, ← hsame])

theorem Grown.entity? {b s : Registry} {id : EntityId} {href : String}
    (h : Grown b id href s) : ∃ e, s.entity? id = some e ∧ e.href = href :=
  (h.wellFormed.indexed href id).mp h.known

theorem Grown.apply {b s : Registry} {id : EntityId} {href : String} (h : Grown b id href s)
    {e : Entity} (he : s.entity? id = some e) (hhref : e.href = href)
    {statement : Statement} {change : Change} (hentails : b.Entails href statement change) :
    Grown b id href (s.apply id e change) where
  wellFormed := by
    have hnow := h.entails hentails
    rw [← hhref] at hnow
    exact h.wellFormed.steps (apply_steps he hnow)
  known := by
    rw [find?_apply]
    exact h.known
  found := by
    intro other target hfound
    rw [find?_apply]
    exact h.found other target hfound
  childless := by
    intro other hparent
    rcases isParent_apply he hparent with hold | ⟨_, hself⟩
    · exact h.childless other hold
    · subst hself
      cases hentails with
      | parent hfound _ =>
          exact (h.found _ id hfound).right rfl

theorem Grown.record {b s : Registry} {id : EntityId} {href : String}
    (h : Grown b id href s) (diagnostic : Diagnostic) :
    Grown b id href (s.record diagnostic) where
  wellFormed := h.wellFormed.step Step.record
  known := h.known
  found := h.found
  childless := h.childless

theorem Grown.assert_eq {b s : Registry} {id : EntityId} {href : String}
    (h : Grown b id href s) {e : Entity} (he : s.entity? id = some e) (hhref : e.href = href)
    {fact : Fact} {statement : Statement} {change : Change}
    (hstatement : fact.statement? = some statement)
    (hentails : b.Entails href statement change) :
    s.assert id fact = .ok (true, s.apply id e change) := by
  refine assert_eq_ok_iff.mpr ⟨e, he, Or.inr ⟨change, ?_, rfl, rfl⟩⟩
  rw [hhref]
  exact change?_eq_ok_some_iff.mpr ⟨statement, hstatement, h.entails hentails⟩

/-- A fact that has been judged is answered as it was judged. -/
theorem Grown.assert_ok {b s : Registry} {id : EntityId} {href : String}
    (h : Grown b id href s) {fact : Fact} {flag : Bool}
    (hverdict : b.verdict href fact = .ok flag) :
    ∃ after, s.assert id fact = .ok (flag, after) ∧ Grown b id href after := by
  rcases h.entity? with ⟨e, he, hhref⟩
  rcases verdict_eq_ok_iff.mp hverdict with
    ⟨hnone, rfl⟩ | ⟨statement, change, hstatement, hentails, rfl⟩
  · refine ⟨s, assert_eq_ok_iff.mpr ⟨e, he, Or.inl ⟨?_, rfl, rfl⟩⟩, h⟩
    exact change?_eq_ok_none_iff.mpr hnone
  · exact ⟨_, h.assert_eq he hhref hstatement hentails, h.apply he hhref hentails⟩

theorem Grown.assertAll_ok {b s : Registry} {id : EntityId} {href : String}
    (h : Grown b id href s) {judged : List (Fact × Bool)}
    (hverdicts : ∀ fact flag, (fact, flag) ∈ judged → b.verdict href fact = .ok flag) :
    ∃ after, s.assertAll id href judged = (after, .ok ()) ∧ Grown b id href after := by
  induction judged generalizing s with
  | nil => exact ⟨s, rfl, h⟩
  | cons first judged ih =>
      rcases first with ⟨fact, flag⟩
      have hfirst := hverdicts fact flag List.mem_cons_self
      have hrest : ∀ other flag, (other, flag) ∈ judged → b.verdict href other = .ok flag := by
        intro other flag hmem
        exact hverdicts other flag (List.mem_cons_of_mem _ hmem)
      cases flag with
      | false =>
          rw [assertAll]
          exact ih (h.record _) hrest
      | true =>
          rcases h.assert_ok hfirst with ⟨next, hassert, hnext⟩
          rw [assertAll, hassert]
          exact ih hnext hrest

theorem WellFormed.grown {b next : Registry} (h : b.WellFormed) {subject : Identifier}
    {allowString : Bool} {id : EntityId}
    (hinsert : b.insertClass subject allowString = .ok (id, next)) :
    Grown b id subject.href next := by
  have hkind : b.AdmitsKind .rdfsClass := admitsKind_of_not_union rfl
  have hstep : Step b next := step_of_insert hkind hinsert
  rcases insert_eq_ok_iff.mp hinsert with ⟨hfresh, rfl, rfl⟩
  constructor
  · exact h.step hstep
  · rw [find?_append, Entity.href_bare, if_pos rfl]
  · intro other target hfound
    rw [find?_append, Entity.href_bare, if_neg (ne_of_find? hfound hfresh)]
    exact ⟨hfound, Nat.ne_of_lt (h.lt_of_find? hfound)⟩
  · intro other hparent
    rw [IsParent, parentsOf_append_bare] at hparent
    exact Nat.lt_irrefl b.size (h.parent_lt hparent)

/-!
# Loading one class
-/

/-- A class that passes both checks is loaded. -/
theorem WellFormed.loadClass_ok {b next : Registry} (h : b.WellFormed) {c : SourceClass}
    {used : List Bool} {id : EntityId}
    (hverdicts : b.verdicts c.subject.href c.facts = .ok used)
    (hinsert : b.insertClass c.subject c.allowString = .ok (id, next)) :
    ∃ after, next.assertAll id c.subject.href (c.facts.zip used) = (after, .ok ()) ∧
      Grown b id c.subject.href after ∧ b.loadClass c = (after.addMembers id c, .ok ()) := by
  have hall := (verdicts_eq_ok hverdicts).right
  rcases (h.grown hinsert).assertAll_ok hall with ⟨after, hassert, hgrown⟩
  exact ⟨after, hassert, hgrown, loadClass_eq_of_registered hverdicts hinsert hassert⟩

theorem WellFormed.loadClass_refused {b after : Registry} (h : b.WellFormed)
    {c : SourceClass} {failure : LoadFailure} (hload : b.loadClass c = (after, .error failure)) :
    after = b ∧ failure.href = c.subject.href := by
  cases hverdicts : b.verdicts c.subject.href c.facts with
  | error cause =>
      rw [loadClass_eq_of_refused hverdicts] at hload
      cases hload
      exact ⟨rfl, rfl⟩
  | ok used =>
      cases hinsert : b.insertClass c.subject c.allowString with
      | error cause =>
          rw [loadClass_eq_of_taken hverdicts hinsert] at hload
          cases hload
          exact ⟨rfl, rfl⟩
      | ok answer =>
          rcases answer with ⟨id, next⟩
          rcases h.loadClass_ok hverdicts hinsert with ⟨_, _, _, hok⟩
          rw [hok] at hload
          cases hload

/-!
# Loading several classes
-/

theorem load_cons_of_ok {b next : Registry} {c : SourceClass} {classes : List SourceClass}
    (h : b.loadClass c = (next, .ok ())) : b.load (c :: classes) = next.load classes := by
  rw [load, h]

/-- A refused load stops at a class that is refused by what the classes before it have made. -/
theorem WellFormed.load_refused_at {b after : Registry} (h : b.WellFormed)
    {classes : List SourceClass} {failure : LoadFailure}
    (hload : b.load classes = (after, .error failure)) :
    ∃ k c, classes[k]? = some c ∧ b.load (classes.take k) = (after, .ok ()) ∧
      after.loadClass c = (after, .error failure) := by
  induction classes generalizing b with
  | nil => cases hload
  | cons c classes ih =>
      cases hclass : b.loadClass c with
      | mk next outcome =>
          cases outcome with
          | error cause =>
              rw [load, hclass] at hload
              cases hload
              rcases h.loadClass_refused hclass with ⟨rfl, _⟩
              exact ⟨0, c, rfl, rfl, hclass⟩
          | ok _ =>
              rw [load_cons_of_ok hclass] at hload
              have hsteps := b.loadClass_steps c
              rw [hclass] at hsteps
              rcases ih (h.steps hsteps) hload with ⟨k, last, hk, hbefore, hlast⟩
              refine ⟨k + 1, last, hk, ?_, hlast⟩
              rw [List.take_succ_cons, load_cons_of_ok hclass]
              exact hbefore

theorem WellFormed.load_refused {b after : Registry} (h : b.WellFormed)
    {classes : List SourceClass} {failure : LoadFailure}
    (hload : b.load classes = (after, .error failure)) :
    ∃ k c, classes[k]? = some c ∧ failure.href = c.subject.href ∧
      b.load (classes.take k) = (after, .ok ()) := by
  rcases h.load_refused_at hload with ⟨k, c, hk, hbefore, hlast⟩
  have hsteps := b.load_steps (classes.take k)
  rw [hbefore] at hsteps
  exact ⟨k, c, hk, ((h.steps hsteps).loadClass_refused hlast).right, hbefore⟩

/--
A refused load leaves exactly the registry that loading the classes before the refused
one makes, and the refused class is the one named.  A class whose facts have been judged
and which has been registered is loaded: each of its facts is answered as it was judged
when its turn comes.
-/
theorem load_atomic {b : Registry} (hb : b.Reachable) :
    (∀ classes failure, (b.load classes).2 = .error failure →
      ∃ k c, classes[k]? = some c ∧ failure.href = c.subject.href ∧
        b.load (classes.take k) = ((b.load classes).1, .ok ())) ∧
      ∀ c used id next, b.verdicts c.subject.href c.facts = .ok used →
        b.insertClass c.subject c.allowString = .ok (id, next) →
        used.length = c.facts.length ∧ (b.loadClass c).2 = .ok () ∧
          ∀ judged fact flag rest, c.facts.zip used = judged ++ (fact, flag) :: rest →
            b.verdict c.subject.href fact = .ok flag ∧
              ∃ s after, next.assertAll id c.subject.href judged = (s, .ok ()) ∧
                s.assert id fact = .ok (flag, after) := by
  have h := hb.wellFormed
  constructor
  · intro classes failure hfailure
    exact h.load_refused (Prod.ext rfl hfailure)
  · intro c used id next hverdicts hinsert
    rcases verdicts_eq_ok hverdicts with ⟨hlength, hall⟩
    rcases h.loadClass_ok hverdicts hinsert with ⟨last, _, _, hload⟩
    refine ⟨hlength, by rw [hload], ?_⟩
    intro judged fact flag rest hsplit
    rw [hsplit] at hall
    have hfact : b.verdict c.subject.href fact = .ok flag := by
      apply hall fact flag
      exact List.mem_append_right judged List.mem_cons_self
    have hjudged : ∀ other flag, (other, flag) ∈ judged →
        b.verdict c.subject.href other = .ok flag := by
      intro other flag hmem
      exact hall other flag (List.mem_append_left _ hmem)
    rcases (h.grown hinsert).assertAll_ok hjudged with ⟨s, hassert, hgrown⟩
    rcases hgrown.assert_ok hfact with ⟨after, hlast, _⟩
    exact ⟨hfact, s, after, hassert, hlast⟩

/-- A class with a fact that is used and one that is not. -/
def thingClass : SourceClass :=
  { subject := ⟨"Thing", "s:Thing"⟩
    allowString := false
    facts := [(Statement.comment "Anything.").toFact, ⟨"s:label", .literal "Thing"⟩]
    properties := []
    enumValues := [] }

/-- A class that descends from the first one and from one that is unknown. -/
def bookClass : SourceClass :=
  { subject := ⟨"Book", "s:Book"⟩
    allowString := false
    facts := [(Statement.comment "A book.").toFact,
      (Statement.subclassOf ⟨"Thing", "s:Thing"⟩).toFact,
      (Statement.subclassOf ⟨"Work", "s:Work"⟩).toFact]
    properties := []
    enumValues := [] }

theorem load_atomic_thing_book :
    empty.Reachable ∧
      (empty.load [thingClass, bookClass]).2 =
        .error ⟨.facts, "s:Book", .unresolvedParent "s:Book" "s:Work"⟩ ∧
      (∃ k c, [thingClass, bookClass][k]? = some c ∧ "s:Book" = c.subject.href ∧
        empty.load ([thingClass, bookClass].take k) =
          ((empty.load [thingClass, bookClass]).1, .ok ())) ∧
      empty.verdicts "s:Thing" thingClass.facts = .ok [true, false] ∧
      (empty.loadClass thingClass).2 = .ok () := by
  have hb : empty.Reachable := ⟨[], rfl⟩
  have hfailure : (empty.load [thingClass, bookClass]).2 =
      .error ⟨.facts, "s:Book", .unresolvedParent "s:Book" "s:Work"⟩ := by
    cbv
  have hverdicts : empty.verdicts "s:Thing" thingClass.facts = .ok [true, false] := by
    cbv
  have hatomic := load_atomic hb
  refine ⟨hb, hfailure, hatomic.left _ _ hfailure, hverdicts, ?_⟩
  exact (hatomic.right thingClass [true, false] 0 _ hverdicts rfl).right.left

end Registry
end VocabTypes
