import VocabTypes.Proofs.History
import VocabTypes.Proofs.Loading

/-!
# An added class

## What a class says is what the registry holds

A class that is loaded becomes the last entity of the registry.  The facts of the class
say what is known of the entity: its comment is the last one given, its parents and
replacements are the terms named, in order.  The parents learn of their new child, and
no other entity changes.  A fact that says nothing to the class model, or repeats the
comment, leaves a remark.
-/

namespace VocabTypes

/-!
# What a fact says
-/

namespace Fact

/-- The comment that a fact gives to its subject. -/
def comment? (fact : Fact) : Option String :=
  match fact.statement? with
  | some (.comment text) => some text
  | _ => none

/-- The term that a fact says its subject to be superseded by. -/
def successor? (fact : Fact) : Option Identifier :=
  match fact.statement? with
  | some (.supersededBy target) => some target
  | _ => none

/-- The term that a fact names, as a superclass or as a successor. -/
def target? (fact : Fact) : Option Identifier :=
  fact.superclass?.or fact.successor?

theorem target?_eq_some_iff {fact : Fact} {target : Identifier} :
    fact.target? = some target ↔
      fact.superclass? = some target ∨ fact.successor? = some target := by
  cases hstatement : fact.statement? with
  | none => simp [target?, superclass?, successor?, hstatement]
  | some statement =>
      cases statement with
      | comment text => simp [target?, superclass?, successor?, hstatement]
      | subclassOf parent => simp [target?, superclass?, successor?, hstatement]
      | supersededBy replacement => simp [target?, superclass?, successor?, hstatement]

/-- The remark that a fact about a term deserves after some earlier facts about it. -/
def remark? (href : String) (earlier : List Fact) (fact : Fact) : Option Diagnostic :=
  match fact.statement? with
  | none => some (Registry.factUnused href fact)
  | some (.comment _) =>
      if earlier.filterMap comment? = [] then none
      else some
        { severity := .warning
          entity := href
          message := "duplicate comment; previous value overwritten" }
  | some _ => none

/-- The remarks on facts about a term, in the order of the facts. -/
def remarksAfter (href : String) (earlier : List Fact) : List Fact → List Diagnostic
  | [] => []
  | fact :: facts =>
      (remark? href earlier fact).toList ++ remarksAfter href (earlier ++ [fact]) facts

theorem remarksAfter_concat (href : String) (earlier facts : List Fact) (fact : Fact) :
    remarksAfter href earlier (facts ++ [fact]) =
      remarksAfter href earlier facts ++ (remark? href (earlier ++ facts) fact).toList := by
  induction facts generalizing earlier with
  | nil => simp [remarksAfter]
  | cons first facts ih =>
      have hearlier : earlier ++ [first] ++ facts = earlier ++ first :: facts :=
        List.append_cons earlier first facts |>.symm
      rw [List.cons_append, remarksAfter, remarksAfter, ih, hearlier, List.append_assoc]

end Fact

/-!
# What a class says
-/

namespace SourceClass

def comments (c : SourceClass) : List String :=
  c.facts.filterMap Fact.comment?

def superclasses (c : SourceClass) : List Identifier :=
  c.facts.filterMap Fact.superclass?

def successors (c : SourceClass) : List Identifier :=
  c.facts.filterMap Fact.successor?

/-- The remarks on the facts of a class. -/
def remarks (c : SourceClass) : List Diagnostic :=
  Fact.remarksAfter c.subject.href [] c.facts

/-- The entity that a class describes, with the positions of the terms that it is linked to. -/
def entity (c : SourceClass) (parents replacements children : List EntityId) : Entity :=
  { subject := c.subject
    kind := .rdfsClass
    allowString := c.allowString
    comment := c.comments.getLast?
    parents
    children
    replacements
    properties := c.properties
    enumValues := c.enumValues }

/-- A class with one more fact. -/
def tell (c : SourceClass) (fact : Fact) : SourceClass :=
  { c with facts := c.facts ++ [fact] }

variable (c : SourceClass) (fact : Fact)

@[simp] theorem comments_tell : (c.tell fact).comments = c.comments ++ fact.comment?.toList := by
  cases h : fact.comment? <;> simp [comments, tell, h]

@[simp] theorem superclasses_tell :
    (c.tell fact).superclasses = c.superclasses ++ fact.superclass?.toList := by
  cases h : fact.superclass? <;> simp [superclasses, tell, h]

@[simp] theorem successors_tell :
    (c.tell fact).successors = c.successors ++ fact.successor?.toList := by
  cases h : fact.successor? <;> simp [successors, tell, h]

theorem remarks_tell :
    (c.tell fact).remarks = c.remarks ++ (Fact.remark? c.subject.href c.facts fact).toList :=
  Fact.remarksAfter_concat c.subject.href [] c.facts fact

theorem entity_tell (parents replacements children : List EntityId) :
    (c.tell fact).entity parents replacements children =
      { c.entity parents replacements children with
        comment := (c.comments ++ fact.comment?.toList).getLast? } := by
  rw [entity, comments_tell]
  rfl

end SourceClass

namespace Registry

/-- The positions of those terms that are registered. -/
def positions (r : Registry) (terms : List Identifier) : List EntityId :=
  terms.filterMap fun term => r.find? term.href

@[simp] theorem positions_append (r : Registry) (terms more : List Identifier) :
    r.positions (terms ++ more) = r.positions terms ++ r.positions more :=
  List.filterMap_append

theorem positions_singleton {r : Registry} {term : Identifier} {id : EntityId}
    (h : r.find? term.href = some id) : r.positions [term] = [id] := by
  simp [positions, h]

/-!
# The registry with one class more

The invariant holds of the facts that have been asserted so far.
-/

/-- The registry `s` is `b` with the class `c` at its end. -/
structure AddedClass (b : Registry) (c : SourceClass) (s : Registry) : Prop where
  size : s.size = b.size + 1
  find? : ∀ href, s.find? href = if href = c.subject.href then some b.size else b.find? href
  last : s.entity? b.size =
    some (c.entity (b.positions c.superclasses) (b.positions c.successors) [])
  earlier : ∀ id e, b.entity? id = some e → s.entity? id =
    some { e with
      children := e.children ++ List.replicate ((b.positions c.superclasses).count id) b.size }
  diagnostics : s.diagnostics = b.diagnostics ++ c.remarks

/-- A class of which nothing has been said yet is added by registering it. -/
theorem addedClass_append (b : Registry) (subject : Identifier) (allowString : Bool) :
    AddedClass b ⟨subject, allowString, [], [], []⟩
      (b.append (.bare subject .rdfsClass allowString)) where
  size := size_append b _
  find? := find?_append b _
  last := by
    rw [entity?_append, if_pos rfl]
    rfl
  earlier := by
    intro id e he
    rw [entity?_append, if_neg (ne_size_of_entity? he), he]
    simp [SourceClass.superclasses, positions]
  diagnostics := (List.append_nil b.diagnostics).symm

/-!
# Asserting one more fact
-/

theorem size_apply (r : Registry) (id : EntityId) (e : Entity) (change : Change) :
    (r.apply id e change).size = r.size := by
  cases change with
  | comment text =>
      rw [apply]
      split
      · exact size_setComment r id text
      · exact size_setComment r id text
  | parent target => exact size_link r id target
  | replacement target => exact size_addReplacement r id target

theorem entity?_apply_comment (r : Registry) (id : EntityId) (e : Entity) (text : String)
    (other : EntityId) :
    (r.apply id e (.comment text)).entity? other =
      if id = other then (r.entity? other).map fun e => { e with comment := some text }
      else r.entity? other := by
  have hentity : (r.apply id e (.comment text)).entity? other =
      (r.setComment id text).entity? other := by
    rw [apply]
    split
    · exact entity?_record _ _ other
    · rfl
  rw [hentity, setComment, entity?_modify]

section

variable {b s : Registry} {c : SourceClass} {fact : Fact}

/-- What has to be checked of a registry in which one more fact has been dealt with. -/
theorem AddedClass.told {t : Registry} (h : AddedClass b c s) (hsize : t.size = s.size)
    (hfind : ∀ href, t.find? href = s.find? href)
    (hlast : t.entity? b.size = some ((c.tell fact).entity
      (b.positions (c.tell fact).superclasses) (b.positions (c.tell fact).successors) []))
    (hearlier : ∀ id e, b.entity? id = some e → t.entity? id =
      some { e with
        children := e.children ++
          List.replicate ((b.positions (c.tell fact).superclasses).count id) b.size })
    (hdiagnostics : t.diagnostics =
      s.diagnostics ++ (Fact.remark? c.subject.href c.facts fact).toList) :
    AddedClass b (c.tell fact) t where
  size := hsize.trans h.size
  find? := by
    intro href
    rw [hfind]
    exact h.find? href
  last := hlast
  earlier := hearlier
  diagnostics := by
    rw [hdiagnostics, h.diagnostics, SourceClass.remarks_tell, List.append_assoc]

theorem AddedClass.unused (h : AddedClass b c s) (hfact : fact.statement? = none) :
    AddedClass b (c.tell fact) (s.record (factUnused c.subject.href fact)) := by
  apply h.told (size_record s _) (find?_record s _)
  · rw [entity?_record, h.last, SourceClass.entity_tell]
    simp [Fact.comment?, Fact.superclass?, Fact.successor?, hfact, SourceClass.entity]
  · intro id e he
    rw [entity?_record, h.earlier id e he]
    simp [Fact.superclass?, hfact]
  · rw [Fact.remark?, hfact]
    rfl

theorem AddedClass.comment (h : AddedClass b c s) {text : String} {e : Entity}
    (he : s.entity? b.size = some e) (hfact : fact.statement? = some (.comment text)) :
    AddedClass b (c.tell fact) (s.apply b.size e (.comment text)) := by
  apply h.told (size_apply s _ e _) (find?_apply s _ e _)
  · rw [entity?_apply_comment, if_pos rfl, h.last, SourceClass.entity_tell]
    simp [Fact.comment?, Fact.superclass?, Fact.successor?, hfact]
  · intro id old hold
    rw [entity?_apply_comment, if_neg (ne_size_of_entity? hold).symm, h.earlier id old hold]
    simp [Fact.superclass?, hfact]
  · -- The entity has a comment as soon as one of the facts before has given one.
    have hlast := h.last
    rw [he, Option.some_inj] at hlast
    have hcomment : e.comment = c.comments.getLast? := by
      rw [hlast]
      rfl
    have hhref : e.href = c.subject.href := by
      rw [hlast]
      rfl
    have hremark : Fact.remark? c.subject.href c.facts fact =
        if c.comments = [] then none else some (commentReplaced e) := by
      rw [Fact.remark?, hfact, commentReplaced, hhref]
      rfl
    rw [hremark, apply, hcomment]
    cases hcomments : c.comments.getLast? with
    | none =>
        rw [if_pos (List.getLast?_eq_none_iff.mp hcomments)]
        exact (List.append_nil _).symm
    | some previous =>
        have hne : c.comments ≠ [] := by
          intro hnil
          rw [hnil] at hcomments
          cases hcomments
        rw [if_neg hne]
        rfl

theorem AddedClass.replacement (h : AddedClass b c s) {target : Identifier} {id : EntityId}
    (e : Entity) (hfact : fact.statement? = some (.supersededBy target))
    (htarget : b.find? target.href = some id) :
    AddedClass b (c.tell fact) (s.apply b.size e (.replacement id)) := by
  apply h.told (size_apply s _ e _) (find?_apply s _ e _)
  · rw [apply, addReplacement, entity?_modify, if_pos rfl, h.last, SourceClass.entity_tell]
    simp [Fact.comment?, Fact.superclass?, Fact.successor?, hfact,
      positions_singleton htarget, SourceClass.entity]
  · intro other old hold
    rw [apply, addReplacement, entity?_modify, if_neg (ne_size_of_entity? hold).symm,
      h.earlier other old hold]
    simp [Fact.superclass?, hfact]
  · rw [Fact.remark?, hfact]
    exact (List.append_nil _).symm

theorem AddedClass.parent (h : AddedClass b c s) {parent : Identifier} {id : EntityId}
    (e : Entity) (hfact : fact.statement? = some (.subclassOf parent))
    (hparent : b.find? parent.href = some id) (hne : id ≠ b.size) :
    AddedClass b (c.tell fact) (s.apply b.size e (.parent id)) := by
  have hpositions : b.positions (c.tell fact).superclasses =
      b.positions c.superclasses ++ [id] := by
    rw [SourceClass.superclasses_tell, positions_append, Fact.superclass?, hfact]
    rw [Option.toList_some, positions_singleton hparent]
  apply h.told (size_apply s _ e _) (find?_apply s _ e _)
  · rw [apply, link, entity?_modify, if_neg hne, entity?_modify, if_pos rfl, h.last,
      SourceClass.entity_tell, hpositions]
    simp [Fact.comment?, Fact.successor?, hfact, SourceClass.entity]
  · intro other old hold
    rw [apply, link, entity?_modify, entity?_modify, if_neg (ne_size_of_entity? hold).symm,
      h.earlier other old hold, hpositions]
    by_cases hother : id = other
    · simp [hother, List.replicate_succ']
    · simp [hother]
  · rw [Fact.remark?, hfact]
    exact (List.append_nil _).symm

/-- A fact that amounts to a change, in the registry in which it was judged, makes it. -/
theorem AddedClass.apply (h : AddedClass b c s) (hb : b.WellFormed) {e : Entity}
    (he : s.entity? b.size = some e) {statement : Statement} {change : Change}
    (hfact : fact.statement? = some statement)
    (hentails : b.Entails c.subject.href statement change) :
    AddedClass b (c.tell fact) (s.apply b.size e change) := by
  cases hentails with
  | comment text => exact h.comment he hfact
  | parent hfound _ => exact h.parent e hfact hfound (Nat.ne_of_lt (hb.lt_of_find? hfound))
  | replacement hfound => exact h.replacement e hfact hfound

end

/-!
# Loading the class
-/

theorem AddedClass.assertAll {b s : Registry} {c : SourceClass} (h : AddedClass b c s)
    (hb : b.WellFormed) (hgrown : Grown b b.size c.subject.href s)
    {judged : List (Fact × Bool)}
    (hverdicts : ∀ fact flag, (fact, flag) ∈ judged →
      b.verdict c.subject.href fact = .ok flag) :
    AddedClass b { c with facts := c.facts ++ judged.map Prod.fst }
      (s.assertAll b.size c.subject.href judged).1 := by
  induction judged generalizing s c with
  | nil =>
      rw [List.map_nil, List.append_nil]
      exact h
  | cons first judged ih =>
      rcases first with ⟨fact, flag⟩
      have hfirst := hverdicts fact flag List.mem_cons_self
      have hrest : ∀ other flag, (other, flag) ∈ judged →
          b.verdict c.subject.href other = .ok flag := by
        intro other flag hmem
        exact hverdicts other flag (List.mem_cons_of_mem _ hmem)
      rw [List.map_cons, List.append_cons]
      rcases verdict_eq_ok_iff.mp hfirst with
        ⟨hnone, rfl⟩ | ⟨statement, change, hstatement, hentails, rfl⟩
      · rw [Registry.assertAll]
        exact ih (h.unused hnone) (hgrown.record _) hrest
      · rcases hgrown.entity? with ⟨e, he, hhref⟩
        rw [Registry.assertAll, hgrown.assert_eq he hhref hstatement hentails]
        exact ih (h.apply hb he hstatement hentails) (hgrown.apply he hhref hentails) hrest

theorem AddedClass.addMembers {b s : Registry} {c : SourceClass}
    (h : AddedClass b { c with properties := [], enumValues := [] } s) :
    AddedClass b c (s.addMembers b.size c) where
  size := (size_modify s _ _).trans h.size
  find? := h.find?
  last := by
    rw [Registry.addMembers, entity?_modify, if_pos rfl, h.last]
    rfl
  earlier := by
    intro id e he
    rw [Registry.addMembers, entity?_modify, if_neg (ne_size_of_entity? he).symm]
    exact h.earlier id e he
  diagnostics := h.diagnostics

theorem loadClass_eq_ok {b s : Registry} {c : SourceClass}
    (hload : b.loadClass c = (s, .ok ())) :
    ∃ used id next, b.verdicts c.subject.href c.facts = .ok used ∧
      b.insertClass c.subject c.allowString = .ok (id, next) := by
  cases hverdicts : b.verdicts c.subject.href c.facts with
  | error cause =>
      rw [loadClass_eq_of_refused hverdicts] at hload
      cases hload
  | ok used =>
      cases hinsert : b.insertClass c.subject c.allowString with
      | error cause =>
          rw [loadClass_eq_of_taken hverdicts hinsert] at hload
          cases hload
      | ok answer => exact ⟨used, answer.1, answer.2, rfl, rfl⟩

/-- A class that is loaded is added with all that it says. -/
theorem WellFormed.addedClass {b s : Registry} (h : b.WellFormed) {c : SourceClass}
    (hload : b.loadClass c = (s, .ok ())) : AddedClass b c s := by
  rcases loadClass_eq_ok hload with ⟨used, id, next, hverdicts, hinsert⟩
  rcases verdicts_eq_ok hverdicts with ⟨hlength, hall⟩
  rcases h.loadClass_ok hverdicts hinsert with ⟨after, hassert, _, hok⟩
  have hgrown := h.grown hinsert
  rcases insert_eq_ok_iff.mp hinsert with ⟨_, rfl, rfl⟩
  have hadded := (addedClass_append b c.subject c.allowString).assertAll h hgrown hall
  have hfacts : (c.facts.zip used).map Prod.fst = c.facts :=
    List.map_fst_zip (Nat.le_of_eq hlength.symm)
  rw [hassert, hfacts] at hadded
  rw [hload] at hok
  cases hok
  exact hadded.addMembers

/-!
# Classes that can be loaded
-/

theorem exists_verdicts {r : Registry} {href : String} {facts : List Fact}
    (h : ∀ fact ∈ facts, ∃ flag, r.verdict href fact = .ok flag) :
    ∃ used, r.verdicts href facts = .ok used := by
  induction facts with
  | nil => exact ⟨[], rfl⟩
  | cons fact facts ih =>
      rcases h fact List.mem_cons_self with ⟨flag, hflag⟩
      rcases ih fun other hother => h other (List.mem_cons_of_mem _ hother) with ⟨used, hused⟩
      refine ⟨flag :: used, ?_⟩
      rw [verdicts, hflag, hused]

/-- A fact about a term that is still unknown is fine when the term that it names is known. -/
theorem exists_verdict_iff {r : Registry} {href : String} (hfresh : r.find? href = none)
    {fact : Fact} :
    (∃ flag, r.verdict href fact = .ok flag) ↔
      ∀ target, fact.target? = some target → ∃ id, r.find? target.href = some id := by
  constructor
  · intro hjudged target htarget
    rcases hjudged with ⟨flag, hflag⟩
    rcases verdict_eq_ok_iff.mp hflag with ⟨hnone, _⟩ | ⟨statement, change, hfact, hentails, _⟩
    · simp [Fact.target?, Fact.superclass?, Fact.successor?, hnone] at htarget
    · simp only [Fact.target?, Fact.superclass?, Fact.successor?, hfact] at htarget
      cases hentails with
      | comment text => cases htarget
      | parent hfound _ =>
          cases htarget
          exact ⟨_, hfound⟩
      | replacement hfound =>
          cases htarget
          exact ⟨_, hfound⟩
  · intro hknown
    cases hfact : fact.statement? with
    | none => exact ⟨false, verdict_eq_ok_iff.mpr (Or.inl ⟨hfact, rfl⟩)⟩
    | some statement =>
        have hentails : ∃ change, r.Entails href statement change := by
          cases statement with
          | comment text => exact ⟨_, Entails.comment text⟩
          | subclassOf parent =>
              have htarget : fact.target? = some parent := by
                simp [Fact.target?, Fact.superclass?, hfact]
              rcases hknown parent htarget with ⟨id, hid⟩
              refine ⟨_, Entails.parent hid ?_⟩
              rw [closesCycle, hfresh]
              rfl
          | supersededBy target =>
              have htarget : fact.target? = some target := by
                simp [Fact.target?, Fact.superclass?, Fact.successor?, hfact]
              rcases hknown target htarget with ⟨id, hid⟩
              exact ⟨_, Entails.replacement hid⟩
        rcases hentails with ⟨change, hentails⟩
        exact ⟨true, verdict_eq_ok_iff.mpr (Or.inr ⟨statement, change, hfact, hentails, rfl⟩)⟩

/-- All terms that the facts of a class name are registered. -/
def TargetsKnown (r : Registry) (c : SourceClass) : Prop :=
  ∀ fact ∈ c.facts, ∀ target, fact.target? = some target → ∃ id, r.find? target.href = some id

/-- A class is loaded if its IRI is new and the terms that its facts name are registered. -/
def Admits (r : Registry) (c : SourceClass) : Prop :=
  r.find? c.subject.href = none ∧ r.TargetsKnown c

theorem WellFormed.loadClass_ok_iff {b : Registry} (h : b.WellFormed) {c : SourceClass} :
    (b.loadClass c).2 = .ok () ↔ b.Admits c := by
  constructor
  · intro hok
    have hload : b.loadClass c = ((b.loadClass c).1, .ok ()) := Prod.ext rfl hok
    rcases loadClass_eq_ok hload with ⟨used, id, next, hverdicts, hinsert⟩
    rcases verdicts_eq_ok hverdicts with ⟨hlength, hall⟩
    have hfresh := (insert_eq_ok_iff.mp hinsert).left
    refine ⟨hfresh, ?_⟩
    intro fact hfact
    apply (exists_verdict_iff hfresh).mp
    rw [← List.map_fst_zip (Nat.le_of_eq hlength.symm)] at hfact
    rcases List.mem_map.mp hfact with ⟨⟨_, flag⟩, hmem, rfl⟩
    exact ⟨flag, hall _ flag hmem⟩
  · intro hadmits
    rcases hadmits with ⟨hfresh, hnamed⟩
    have hjudged : ∀ fact ∈ c.facts, ∃ flag, b.verdict c.subject.href fact = .ok flag := by
      intro fact hfact
      exact (exists_verdict_iff hfresh).mpr (hnamed fact hfact)
    rcases exists_verdicts hjudged with ⟨used, hverdicts⟩
    have hinsert : b.insertClass c.subject c.allowString = .ok (b.size, _) :=
      insert_eq_ok_iff.mpr ⟨hfresh, rfl, rfl⟩
    rcases h.loadClass_ok hverdicts hinsert with ⟨after, _, _, hok⟩
    rw [hok]

/-!
# Refusal for a cycle
-/

theorem known_of_changeOf {r : Registry} {href : String} {statement : Statement}
    {entity parent : String}
    (h : r.changeOf href statement = .error (.inheritanceCycle entity parent)) :
    ∃ id, r.find? href = some id := by
  cases statement with
  | comment text => cases h
  | supersededBy target =>
      rw [changeOf] at h
      cases hfound : r.find? target.href with
      | none =>
          rw [hfound] at h
          cases h
      | some id =>
          rw [hfound] at h
          cases h
  | subclassOf target =>
      rw [changeOf] at h
      cases hfound : r.find? target.href with
      | none =>
          rw [hfound] at h
          cases h
      | some above =>
          cases hhref : r.find? href with
          | some id => exact ⟨id, rfl⟩
          | none =>
              -- A term that is unknown has no descendants to close a cycle with.
              have hopen : r.closesCycle href above = false := by
                rw [closesCycle, hhref]
                rfl
              simp [hfound, hopen] at h

theorem known_of_verdict {r : Registry} {href : String} {fact : Fact} {entity parent : String}
    (h : r.verdict href fact = .error (.inheritanceCycle entity parent)) :
    ∃ id, r.find? href = some id := by
  rw [verdict, change?] at h
  cases hstatement : fact.statement? with
  | none => simp [hstatement] at h
  | some statement =>
      cases hchange : r.changeOf href statement with
      | ok change => simp [hstatement, hchange] at h
      | error cause =>
          simp only [hstatement, hchange, Except.error.injEq] at h
          rw [h] at hchange
          exact known_of_changeOf hchange

theorem exists_of_verdicts_eq_error {r : Registry} {href : String} {facts : List Fact}
    {cause : Rejection} (h : r.verdicts href facts = .error cause) :
    ∃ fact ∈ facts, r.verdict href fact = .error cause := by
  induction facts with
  | nil => cases h
  | cons fact facts ih =>
      rw [verdicts] at h
      cases hfact : r.verdict href fact with
      | error first =>
          rw [hfact] at h
          cases h
          exact ⟨fact, List.mem_cons_self, hfact⟩
      | ok flag =>
          cases hrest : r.verdicts href facts with
          | error later =>
              rw [hfact, hrest] at h
              cases h
              rcases ih hrest with ⟨other, hother, hverdict⟩
              exact ⟨other, List.mem_cons_of_mem _ hother, hverdict⟩
          | ok used =>
              rw [hfact, hrest] at h
              cases h

/-- Only a class whose IRI is known already can be refused for closing a cycle. -/
theorem WellFormed.known_of_cycle {b after : Registry} (h : b.WellFormed) {c : SourceClass}
    {failure : LoadFailure} {entity parent : String}
    (hload : b.loadClass c = (after, .error failure))
    (hcause : failure.cause = .inheritanceCycle entity parent) :
    ∃ id, b.find? c.subject.href = some id := by
  cases hverdicts : b.verdicts c.subject.href c.facts with
  | error cause =>
      rw [loadClass_eq_of_refused hverdicts] at hload
      cases hload
      obtain rfl : cause = .inheritanceCycle entity parent := hcause
      rcases exists_of_verdicts_eq_error hverdicts with ⟨_, _, hverdict⟩
      exact known_of_verdict hverdict
  | ok used =>
      cases hinsert : b.insertClass c.subject c.allowString with
      | ok answer =>
          rcases h.loadClass_ok hverdicts hinsert with ⟨_, _, _, hok⟩
          rw [hok] at hload
          cases hload
      | error cause =>
          rw [loadClass_eq_of_taken hverdicts hinsert] at hload
          cases hload
          rw [insertClass, insert] at hinsert
          cases hfound : b.find? c.subject.href with
          | some id => exact ⟨id, rfl⟩
          | none =>
              rw [hfound] at hinsert
              cases hinsert

end Registry
end VocabTypes
