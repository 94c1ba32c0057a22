import Mathlib.Data.List.Forall2
import VocabTypes.Proofs.AddedClass

/-!
# The log of calls

## A registry is what its calls have made of it

The log of a run keeps the calls that took effect: it leaves out calls that were refused,
facts that were not used, and verdicts.  Replaying the log gives the same registry.  What
the registry holds can be read off the log alone: which terms are registered, what was
said of each of them, and which remarks were made.
-/

namespace VocabTypes

/-- An entity as it was registered, before anything was said about it. -/
def Entity.term (e : Entity) : Entity :=
  .bare e.subject e.kind e.allowString

namespace Call

/-!
# What a call says
-/

/-- Whether a call does one thing or nothing, so that refusing it has no effect. -/
def isSingle : Call → Bool
  | insertStandard => false
  | load _ => false
  | _ => true

/-- Whether an answer tells that its call has changed the registry. -/
def tookEffect : Call → Answer → Bool
  | verdict .., _ => false
  | assert .., .used flag => flag
  | _, answer => answer.succeeded

/-- The term that a call registers. -/
def term? : Call → Option Entity
  | insertClass subject allowString => some (.bare subject .rdfsClass allowString)
  | insertBuiltin url typeName doc => some (.bare (.ofUrl url) (.builtin typeName doc) false)
  | insertBooleanEnum url trueUrl falseUrl doc =>
      some (.bare (.ofUrl url) (.booleanEnum trueUrl falseUrl doc) false)
  | insertDataTypeUnion url members doc =>
      some (.bare (.ofUrl url) (.dataTypeUnion members doc) false)
  | _ => none

/-- The position of the entity that a call adds something to. -/
def subject? : Call → Option EntityId
  | assert id _ => some id
  | addProperty id _ => some id
  | addEnumValue id _ => some id
  | _ => none

/-- The fact that a call applies to the entity at a position. -/
def factFor? (id : EntityId) : Call → Option Fact
  | assert other fact => if other = id then some fact else none
  | _ => none

/-- The property that a call appends to the entity at a position. -/
def propertyFor? (id : EntityId) : Call → Option Property
  | addProperty other property => if other = id then some property else none
  | _ => none

/-- The enumeration value that a call appends to the entity at a position. -/
def enumValueFor? (id : EntityId) : Call → Option EnumValue
  | addEnumValue other value => if other = id then some value else none
  | _ => none

/-- The fact that a call applies, with the position of its subject. -/
def application? : Call → Option Application
  | assert id fact => some ⟨id, fact⟩
  | _ => none

section

variable {call : Call} {id : EntityId} (h : call.subject? ≠ some id)

include h

theorem factFor?_eq_none : call.factFor? id = none := by
  cases call <;> simp_all [subject?, factFor?]

theorem propertyFor?_eq_none : call.propertyFor? id = none := by
  cases call <;> simp_all [subject?, propertyFor?]

theorem enumValueFor?_eq_none : call.enumValueFor? id = none := by
  cases call <;> simp_all [subject?, enumValueFor?]

end

/-!
# What a log says
-/

/-- The facts that the calls of a log apply to the entity at a position. -/
def factsFor (id : EntityId) (log : List Call) : List Fact :=
  log.filterMap (factFor? id)

/-- The remark that a call deserves after some earlier calls, entities written by their labels. -/
def remark? (label : EntityId → String) (earlier : List Call) : Call → Option Diagnostic
  | record diagnostic => some diagnostic
  | assert id fact =>
      match fact.comment?, (factsFor id earlier).filterMap Fact.comment? with
      | some _, _ :: _ => some
          { severity := .warning
            entity := label id
            message := "duplicate comment; previous value overwritten" }
      | _, _ => none
  | _ => none

/-- The remarks on the calls of a log, in the order of the calls. -/
def remarksAfter (label : EntityId → String) (earlier : List Call) : List Call → List Diagnostic
  | [] => []
  | call :: log =>
      (call.remark? label earlier).toList ++ remarksAfter label (earlier ++ [call]) log

theorem filterMap_concat {α : Type} (read? : Call → Option α) (log : List Call) (call : Call) :
    (log ++ [call]).filterMap read? = log.filterMap read? ++ (read? call).toList := by
  cases h : read? call <;> simp [h]

theorem factsFor_concat (id : EntityId) (log : List Call) (call : Call) :
    factsFor id (log ++ [call]) = factsFor id log ++ (call.factFor? id).toList :=
  filterMap_concat (factFor? id) log call

theorem remarksAfter_concat (label : EntityId → String) (earlier log : List Call)
    (call : Call) :
    remarksAfter label earlier (log ++ [call]) =
      remarksAfter label earlier log ++ (call.remark? label (earlier ++ log)).toList := by
  induction log generalizing earlier with
  | nil => simp [remarksAfter]
  | cons first log ih =>
      have hearlier : earlier ++ [first] ++ log = earlier ++ first :: log :=
        (List.append_cons earlier first log).symm
      rw [List.cons_append, remarksAfter, remarksAfter, ih, hearlier, List.append_assoc]

/-- The remarks on a log depend only on the labels of the entities that it speaks about. -/
theorem remarksAfter_congr {label other : EntityId → String} (earlier : List Call)
    {log : List Call}
    (h : ∀ call ∈ log, ∀ id, call.subject? = some id → label id = other id) :
    remarksAfter label earlier log = remarksAfter other earlier log := by
  induction log generalizing earlier with
  | nil => rfl
  | cons call log ih =>
      have hfirst : call.remark? label earlier = call.remark? other earlier := by
        cases call with
        | assert id fact => rw [remark?, remark?, h _ List.mem_cons_self id rfl]
        | _ => rfl
      rw [remarksAfter, remarksAfter, hfirst,
        ih _ fun later hlater => h later (List.mem_cons_of_mem call hlater)]

section

variable {call : Call} {e : Entity} (h : call.term? = some e)

include h

/-- A call that registers a term says nothing of entities that are registered already. -/
theorem subject?_of_term? : call.subject? = none := by
  cases call <;> simp_all [term?, subject?]

theorem remark?_of_term? (label : EntityId → String) (earlier : List Call) :
    call.remark? label earlier = none := by
  cases call <;> simp_all [term?, remark?]

end

end Call

namespace Registry

/-- The calls of a run that took effect. -/
def effective (r : Registry) : List Call → List Call
  | [] => []
  | call :: calls =>
      match r.perform call with
      | (next, answer) =>
          if call.tookEffect answer then call :: next.effective calls
          else next.effective calls

theorem effective_cons (r : Registry) (call : Call) (calls : List Call) :
    r.effective (call :: calls) =
      if call.tookEffect (r.perform call).2 then call :: (r.perform call).1.effective calls
      else (r.perform call).1.effective calls :=
  rfl

/-!
# Calls that took effect

A call that took effect has passed the checks of its kind; any other single call has
left the registry as it was.
-/

/-- What a call that took effect has checked and done. -/
inductive Effect (r : Registry) : Call → Registry → Prop where
  | insert {call : Call} {subject : Identifier} {kind : Kind} {allowString : Bool}
      (registers : call.term? = some (.bare subject kind allowString))
      (fresh : r.find? subject.href = none) :
      Effect r call (r.append (.bare subject kind allowString))
  | assert {id : EntityId} {e : Entity} {fact : Fact} {statement : Statement} {change : Change}
      (issued : r.entity? id = some e) (states : fact.statement? = some statement)
      (entails : r.Entails e.href statement change) :
      Effect r (.assert id fact) (r.apply id e change)
  | property {id : EntityId} {e : Entity} {property : Property}
      (issued : r.entity? id = some e) :
      Effect r (.addProperty id property)
        (r.modify id fun e => { e with properties := e.properties ++ [property] })
  | enumValue {id : EntityId} {e : Entity} {value : EnumValue}
      (issued : r.entity? id = some e) :
      Effect r (.addEnumValue id value)
        (r.modify id fun e => { e with enumValues := e.enumValues ++ [value] })
  | record {diagnostic : Diagnostic} :
      Effect r (.record diagnostic) (r.record diagnostic)

theorem registration_effect {r : Registry} {call : Call} {subject : Identifier} {kind : Kind}
    {allowString : Bool} {outcome : Except Rejection (EntityId × Registry)}
    (hregisters : call.term? = some (.bare subject kind allowString))
    (houtcome : ∀ id after, outcome = .ok (id, after) →
      r.insert subject kind allowString = .ok (id, after))
    (h : (r.registration outcome).2.succeeded = true) :
    Effect r call (r.registration outcome).1 := by
  cases outcome with
  | error cause => cases h
  | ok answer =>
      rcases answer with ⟨id, after⟩
      rcases insert_eq_ok_iff.mp (houtcome id after rfl) with ⟨hfresh, _, rfl⟩
      exact Effect.insert hregisters hfresh

/-- A single call that took effect has done what it says. -/
theorem effect_of_tookEffect {r : Registry} {call : Call} (hsingle : call.isSingle = true)
    (h : call.tookEffect (r.perform call).2 = true) : Effect r call (r.perform call).1 := by
  cases call with
  | insertClass subject allowString =>
      exact registration_effect rfl (fun _ _ hinsert => hinsert) h
  | insertBuiltin url typeName doc =>
      exact registration_effect rfl (fun _ _ hinsert => hinsert) h
  | insertBooleanEnum url trueUrl falseUrl doc =>
      exact registration_effect rfl (fun _ _ hinsert => hinsert) h
  | insertDataTypeUnion url members doc =>
      apply registration_effect rfl _ h
      intro id after hunion
      exact (insertDataTypeUnion_eq_ok hunion).right
  | assert id fact =>
      rw [perform] at h ⊢
      cases hassert : r.assert id fact with
      | error cause =>
          rw [hassert] at h
          cases h
      | ok answer =>
          rcases answer with ⟨flag, after⟩
          rw [hassert] at h
          rcases assert_eq_ok_iff.mp hassert with
            ⟨e, hentity, ⟨_, rfl, _⟩ | ⟨change, hchange, _, rfl⟩⟩
          · cases h
          · rcases change?_eq_ok_some_iff.mp hchange with ⟨statement, hstatement, hentails⟩
            exact Effect.assert hentity hstatement hentails
  | addProperty id property =>
      rw [perform] at h ⊢
      cases hadd : r.addProperty id property with
      | error cause =>
          rw [hadd] at h
          cases h
      | ok after =>
          rcases addProperty_eq_ok hadd with ⟨hissued, rfl⟩
          rcases (r.lt_size_iff id).mp hissued with ⟨e, hentity⟩
          exact Effect.property hentity
  | addEnumValue id value =>
      rw [perform] at h ⊢
      cases hadd : r.addEnumValue id value with
      | error cause =>
          rw [hadd] at h
          cases h
      | ok after =>
          rcases addEnumValue_eq_ok hadd with ⟨hissued, rfl⟩
          rcases (r.lt_size_iff id).mp hissued with ⟨e, hentity⟩
          exact Effect.enumValue hentity
  | record diagnostic => exact Effect.record
  | verdict href fact => cases h
  | insertStandard => cases hsingle
  | load classes => cases hsingle

/-- A single call that did not take effect has left the registry as it was. -/
theorem perform_of_not_tookEffect {r : Registry} {call : Call} (hsingle : call.isSingle = true)
    (h : call.tookEffect (r.perform call).2 = false) : (r.perform call).1 = r := by
  have hregistration : ∀ outcome, (r.registration outcome).2.succeeded = false →
      (r.registration outcome).1 = r := by
    intro outcome houtcome
    cases outcome with
    | error cause => rfl
    | ok answer => cases houtcome
  have hchange : ∀ outcome, (r.change outcome).2.succeeded = false →
      (r.change outcome).1 = r := by
    intro outcome houtcome
    cases outcome with
    | error cause => rfl
    | ok after => cases houtcome
  cases call with
  | insertClass subject allowString => exact hregistration _ h
  | insertBuiltin url typeName doc => exact hregistration _ h
  | insertBooleanEnum url trueUrl falseUrl doc => exact hregistration _ h
  | insertDataTypeUnion url members doc => exact hregistration _ h
  | assert id fact =>
      rw [perform] at h ⊢
      cases hassert : r.assert id fact with
      | error cause => rfl
      | ok answer =>
          rcases answer with ⟨flag, after⟩
          rw [hassert] at h
          rcases assert_eq_ok_iff.mp hassert with ⟨_, _, ⟨_, _, rfl⟩ | ⟨_, _, rfl, _⟩⟩
          · rfl
          · cases h
  | addProperty id property => exact hchange _ h
  | addEnumValue id value => exact hchange _ h
  | record diagnostic => cases h
  | verdict href fact =>
      rw [perform]
      cases r.verdict href fact with
      | error cause => rfl
      | ok flag => rfl
  | insertStandard => cases hsingle
  | load classes => cases hsingle

/-!
# Replaying a log
-/

section

variable {calls : List Call} (h : ∀ call ∈ calls, call.isSingle = true)

include h

/-- Leaving out the calls that did not take effect changes nothing. -/
theorem run_effective (r : Registry) : r.run (r.effective calls) = r.run calls := by
  induction calls generalizing r with
  | nil => rfl
  | cons call calls ih =>
      have hrest : ∀ later ∈ calls, later.isSingle = true := by
        intro later hlater
        exact h later (List.mem_cons_of_mem call hlater)
      rw [effective_cons]
      cases heffect : call.tookEffect (r.perform call).2 with
      | true => exact ih hrest (r.perform call).1
      | false =>
          have hsame := perform_of_not_tookEffect (h call List.mem_cons_self) heffect
          have hrun : r.run (call :: calls) = r.run calls := by
            show (r.perform call).1.run calls = r.run calls
            rw [hsame]
          rw [hsame, hrun]
          exact ih hrest r

/-- Every call of a log takes effect when the log is replayed. -/
theorem effective_effective (r : Registry) :
    r.effective (r.effective calls) = r.effective calls := by
  induction calls generalizing r with
  | nil => rfl
  | cons call calls ih =>
      have hrest : ∀ later ∈ calls, later.isSingle = true := by
        intro later hlater
        exact h later (List.mem_cons_of_mem call hlater)
      rw [effective_cons]
      cases heffect : call.tookEffect (r.perform call).2 with
      | true =>
          show r.effective (call :: _) = call :: _
          rw [effective_cons, if_pos heffect, ih hrest]
      | false =>
          rw [perform_of_not_tookEffect (h call List.mem_cons_self) heffect]
          exact ih hrest r

end

/-!
# What the log tells

The invariant relates a log to the registry that it has made.  Ids are issued by
registration only, so nothing has been said of the term that is registered next.
-/

/-- A term is registered at a position. -/
def FoundAt (r : Registry) (term : Identifier) (id : EntityId) : Prop :=
  r.find? term.href = some id

/-- What an entity holds is what the calls of a log have said of it. -/
structure Reflects (r : Registry) (log : List Call) (id : EntityId) (e : Entity) : Prop where
  comment : e.comment = ((Call.factsFor id log).filterMap Fact.comment?).getLast?
  parents : List.Forall₂ r.FoundAt
    ((Call.factsFor id log).filterMap Fact.superclass?) e.parents
  replacements : List.Forall₂ r.FoundAt
    ((Call.factsFor id log).filterMap Fact.successor?) e.replacements
  properties : e.properties = log.filterMap (Call.propertyFor? id)
  enumValues : e.enumValues = log.filterMap (Call.enumValueFor? id)

/-- What a registry holds is what a log tells. -/
structure Told (log : List Call) (r : Registry) : Prop where
  terms : r.entities.map Entity.term = log.filterMap Call.term?
  issued : ∀ call ∈ log, ∀ id, call.subject? = some id → id < r.size
  reflects : ∀ id e, r.entity? id = some e → Reflects r log id e
  diagnostics : r.diagnostics = Call.remarksAfter r.label [] log

theorem told_empty : Told [] empty where
  terms := rfl
  issued := by
    intro call hcall
    cases hcall
  reflects := by
    intro id e he
    cases he
  diagnostics := rfl

section

variable {r s : Registry} {log : List Call} {id : EntityId} {e : Entity} {call : Call}

/-- Nothing has been said of an id that has not been issued yet. -/
theorem Told.reflects_bare (h : Told log r) (hnew : id = r.size) (subject : Identifier)
    (kind : Kind) (allowString : Bool) :
    Reflects r log id (.bare subject kind allowString) := by
  have hquiet : ∀ call ∈ log, call.subject? ≠ some id := by
    intro call hcall hsubject
    exact Nat.lt_irrefl id (hnew ▸ h.issued call hcall id hsubject)
  have hfacts : Call.factsFor id log = [] :=
    List.filterMap_eq_nil_iff.mpr fun call hcall => Call.factFor?_eq_none (hquiet call hcall)
  constructor
  · rw [hfacts]
    rfl
  · rw [hfacts]
    exact List.Forall₂.nil
  · rw [hfacts]
    exact List.Forall₂.nil
  · exact (List.filterMap_eq_nil_iff.mpr fun call hcall =>
      Call.propertyFor?_eq_none (hquiet call hcall)).symm
  · exact (List.filterMap_eq_nil_iff.mpr fun call hcall =>
      Call.enumValueFor?_eq_none (hquiet call hcall)).symm

/-- An account stays true as long as terms are found where they were. -/
theorem Reflects.mono (h : Reflects r log id e)
    (hfound : ∀ href other, r.find? href = some other → s.find? href = some other) :
    Reflects s log id e where
  comment := h.comment
  parents := h.parents.imp fun _ _ => hfound _ _
  replacements := h.replacements.imp fun _ _ => hfound _ _
  properties := h.properties
  enumValues := h.enumValues

/-- A call that is about something else adds nothing to the account of an entity. -/
theorem Reflects.skip (h : Reflects r log id e) (hcall : call.subject? ≠ some id) :
    Reflects r (log ++ [call]) id e where
  comment := by
    rw [Call.factsFor_concat, Call.factFor?_eq_none hcall, Option.toList_none, List.append_nil]
    exact h.comment
  parents := by
    rw [Call.factsFor_concat, Call.factFor?_eq_none hcall, Option.toList_none, List.append_nil]
    exact h.parents
  replacements := by
    rw [Call.factsFor_concat, Call.factFor?_eq_none hcall, Option.toList_none, List.append_nil]
    exact h.replacements
  properties := by
    rw [Call.filterMap_concat, Call.propertyFor?_eq_none hcall, Option.toList_none,
      List.append_nil]
    exact h.properties
  enumValues := by
    rw [Call.filterMap_concat, Call.enumValueFor?_eq_none hcall, Option.toList_none,
      List.append_nil]
    exact h.enumValues

/-- The account of an entity does not speak of its children. -/
theorem Reflects.withChildren (h : Reflects r log id e) (children : List EntityId) :
    Reflects r log id { e with children } :=
  ⟨h.comment, h.parents, h.replacements, h.properties, h.enumValues⟩

/-- An entity is labelled by its IRI, which belongs to the term that was registered. -/
theorem label_eq_of_terms
    (h : (s.entities.map Entity.term)[id]? = (r.entities.map Entity.term)[id]?) :
    s.label id = r.label id := by
  rw [List.getElem?_map, List.getElem?_map] at h
  have hhref : ((s.entity? id).map Entity.term).map Entity.href =
      ((r.entity? id).map Entity.term).map Entity.href := congrArg (Option.map Entity.href) h
  unfold label
  cases hnew : s.entity? id with
  | none =>
      cases hold : r.entity? id with
      | none => rfl
      | some e => simp [hnew, hold] at hhref
  | some f =>
      cases hold : r.entity? id with
      | none => simp [hnew, hold] at hhref
      | some e => simpa [hnew, hold, Entity.term, Entity.href, Entity.bare] using hhref

theorem map_term_modify {f : Entity → Entity} (hf : ∀ e, (f e).term = e.term) :
    (r.modify id f).entities.map Entity.term = r.entities.map Entity.term := by
  apply List.ext_getElem?
  intro other
  rw [List.getElem?_map, List.getElem?_map]
  show ((r.modify id f).entity? other).map Entity.term = (r.entity? other).map Entity.term
  rw [entity?_modify]
  split
  · rw [Option.map_map]
    congr 1
    exact funext hf
  · rfl

theorem map_term_apply (r : Registry) (id : EntityId) (e : Entity) (change : Change) :
    (r.apply id e change).entities.map Entity.term = r.entities.map Entity.term := by
  cases change with
  | comment text =>
      have hterms : (r.setComment id text).entities.map Entity.term =
          r.entities.map Entity.term := map_term_modify fun _ => rfl
      rw [apply]
      split
      · exact hterms
      · exact hterms
  | parent target =>
      have hchild : (r.link id target).entities.map Entity.term =
          (r.modify id fun e => { e with parents := e.parents ++ [target] }).entities.map
            Entity.term := map_term_modify fun _ => rfl
      exact hchild.trans (map_term_modify fun _ => rfl)
  | replacement target => exact map_term_modify fun _ => rfl

/-!
# One more call

A call that took effect on one entity adds to the account of that entity, and gives at
most children to others.
-/

/-- What has to be checked of a registry in which something was added to an entity. -/
theorem Told.added (h : Told log r) (he : r.entity? id = some e)
    (hsubject : call.subject? = some id) (hterm : call.term? = none)
    (hfind : ∀ href, s.find? href = r.find? href)
    (hterms : s.entities.map Entity.term = r.entities.map Entity.term)
    (hown : ∀ new, s.entity? id = some new → Reflects r (log ++ [call]) id new)
    (hothers : ∀ other new, other ≠ id → s.entity? other = some new →
      ∃ old, r.entity? other = some old ∧ new = { old with children := new.children })
    (hdiagnostics : s.diagnostics = r.diagnostics ++ (call.remark? r.label log).toList) :
    Told (log ++ [call]) s where
  terms := by
    rw [hterms, h.terms, Call.filterMap_concat, hterm, Option.toList_none, List.append_nil]
  issued := by
    have hsize : s.size = r.size := by
      have hlength := congrArg List.length hterms
      simpa [size] using hlength
    intro other hother subject hknown
    rw [hsize]
    rcases List.mem_append.mp hother with hold | hlast
    · exact h.issued other hold subject hknown
    · rw [List.mem_singleton.mp hlast, hsubject] at hknown
      cases hknown
      exact (r.lt_size_iff id).mpr ⟨e, he⟩
  reflects := by
    intro other new hnew
    have hfound : ∀ href position, r.find? href = some position →
        s.find? href = some position := by
      intro href position hposition
      rw [hfind]
      exact hposition
    rcases Decidable.em (other = id) with rfl | hne
    · exact (hown new hnew).mono hfound
    · rcases hothers other new hne hnew with ⟨old, hold, hsame⟩
      have hskip : call.subject? ≠ some other := by
        rw [hsubject]
        exact fun heq => hne (Option.some.inj heq).symm
      rw [hsame]
      exact (((h.reflects other old hold).skip hskip).withChildren _).mono hfound
  diagnostics := by
    have hlabel : s.label = r.label := by
      funext other
      exact label_eq_of_terms (by rw [hterms])
    rw [Call.remarksAfter_concat, hdiagnostics, h.diagnostics, hlabel]
    rfl

/-- Rewriting one entity leaves all others as they were. -/
theorem entity?_modify_other {f : Entity → Entity} {other : EntityId} {new : Entity}
    (hne : other ≠ id) (hnew : (r.modify id f).entity? other = some new) :
    r.entity? other = some new := by
  rw [entity?_modify, if_neg (Ne.symm hne)] at hnew
  exact hnew

theorem Told.insert (h : Told log r) {subject : Identifier} {kind : Kind} {allowString : Bool}
    (hterm : call.term? = some (.bare subject kind allowString))
    (hfresh : r.find? subject.href = none) :
    Told (log ++ [call]) (r.append (.bare subject kind allowString)) where
  terms := by
    rw [Call.filterMap_concat, ← h.terms, hterm]
    exact List.map_append
  issued := by
    intro other hother id hid
    rw [size_append]
    rcases List.mem_append.mp hother with hold | hlast
    · exact Nat.lt_succ_of_lt (h.issued other hold id hid)
    · rw [List.mem_singleton.mp hlast, Call.subject?_of_term? hterm] at hid
      cases hid
  reflects := by
    intro id e he
    have hfound : ∀ href position, r.find? href = some position →
        (r.append (.bare subject kind allowString)).find? href = some position := by
      intro href position hposition
      rw [find?_append, Entity.href_bare, if_neg (ne_of_find? hposition hfresh)]
      exact hposition
    have hold : Reflects r log id e := by
      rw [entity?_append] at he
      split at he
      · next hnew =>
          cases he
          exact h.reflects_bare hnew subject kind allowString
      · exact h.reflects id e he
    have hskip : call.subject? ≠ some id := by
      rw [Call.subject?_of_term? hterm]
      exact (Option.some_ne_none id).symm
    exact (hold.skip hskip).mono hfound
  diagnostics := by
    rw [Call.remarksAfter_concat, Call.remark?_of_term? hterm, Option.toList_none,
      List.append_nil]
    refine h.diagnostics.trans (Call.remarksAfter_congr [] ?_)
    intro other hother id hid
    have hold : id ≠ r.size := Nat.ne_of_lt (h.issued other hother id hid)
    rw [label, label, entity?_append, if_neg hold]

/-- A call that appends a property or an enumeration value to an entity. -/
theorem Told.members (h : Told log r) (he : r.entity? id = some e)
    (hsubject : call.subject? = some id) (hterm : call.term? = none)
    (hfact : call.factFor? id = none) (hremark : call.remark? r.label log = none) :
    Told (log ++ [call]) (r.modify id fun e =>
      { e with
        properties := e.properties ++ (call.propertyFor? id).toList
        enumValues := e.enumValues ++ (call.enumValueFor? id).toList }) := by
  have hold := h.reflects id e he
  have hfacts : Call.factsFor id (log ++ [call]) = Call.factsFor id log := by
    rw [Call.factsFor_concat, hfact, Option.toList_none, List.append_nil]
  refine h.added he hsubject hterm (fun _ => rfl) (map_term_modify fun _ => rfl) ?_ ?_ ?_
  · intro new hnew
    rw [entity?_modify, if_pos rfl, he] at hnew
    cases hnew
    constructor
    · rw [hfacts]
      exact hold.comment
    · rw [hfacts]
      exact hold.parents
    · rw [hfacts]
      exact hold.replacements
    · rw [Call.filterMap_concat, ← hold.properties]
    · rw [Call.filterMap_concat, ← hold.enumValues]
  · intro other new hne hnew
    exact ⟨new, entity?_modify_other hne hnew, rfl⟩
  · rw [hremark]
    exact (List.append_nil _).symm

theorem Told.record (h : Told log r) (diagnostic : Diagnostic) :
    Told (log ++ [.record diagnostic]) (r.record diagnostic) where
  terms := by
    have hterm : (Call.record diagnostic).term? = none := rfl
    rw [Call.filterMap_concat, hterm, Option.toList_none, List.append_nil]
    exact h.terms
  issued := by
    intro other hother id hid
    rcases List.mem_append.mp hother with hold | hlast
    · exact h.issued other hold id hid
    · rw [List.mem_singleton.mp hlast] at hid
      cases hid
  reflects := by
    intro id e he
    have hold : Reflects r (log ++ [.record diagnostic]) id e :=
      (h.reflects id e he).skip (Option.some_ne_none id).symm
    exact hold.mono fun _ _ hfound => hfound
  diagnostics := by
    have hlabel : (r.record diagnostic).label = r.label := rfl
    rw [hlabel, Call.remarksAfter_concat, ← h.diagnostics]
    rfl

/-!
# One more fact

A fact that was applied changes the part of its subject that its statement is about.
-/

/-- A fact that was applied adds to the account of its subject what it says. -/
theorem Reflects.assert (h : Reflects r log id e) {fact : Fact} {new : Entity}
    (hcomment : new.comment =
      ((Call.factsFor id log).filterMap Fact.comment? ++ fact.comment?.toList).getLast?)
    (hparents : List.Forall₂ r.FoundAt
      ((Call.factsFor id log).filterMap Fact.superclass? ++ fact.superclass?.toList) new.parents)
    (hreplacements : List.Forall₂ r.FoundAt
      ((Call.factsFor id log).filterMap Fact.successor? ++ fact.successor?.toList)
      new.replacements)
    (hproperties : new.properties = e.properties) (henumValues : new.enumValues = e.enumValues) :
    Reflects r (log ++ [.assert id fact]) id new := by
  have hfact : (Call.assert id fact).factFor? id = some fact := if_pos rfl
  have hread : ∀ {α : Type} (read? : Fact → Option α),
      (Call.factsFor id (log ++ [.assert id fact])).filterMap read? =
        (Call.factsFor id log).filterMap read? ++ (read? fact).toList := by
    intro α read?
    rw [Call.factsFor_concat, hfact, Option.toList_some]
    cases hlast : read? fact <;> simp [hlast]
  have hproperty : (Call.assert id fact).propertyFor? id = none := rfl
  have hvalue : (Call.assert id fact).enumValueFor? id = none := rfl
  constructor
  · rw [hread]
    exact hcomment
  · rw [hread]
    exact hparents
  · rw [hread]
    exact hreplacements
  · rw [Call.filterMap_concat, hproperty, Option.toList_none, List.append_nil, hproperties]
    exact h.properties
  · rw [Call.filterMap_concat, hvalue, Option.toList_none, List.append_nil, henumValues]
    exact h.enumValues

theorem Told.comment (h : Told log r) (he : r.entity? id = some e) {fact : Fact} {text : String}
    (hfact : fact.statement? = some (.comment text)) :
    Told (log ++ [.assert id fact]) (r.apply id e (.comment text)) := by
  have hold := h.reflects id e he
  refine h.added he rfl rfl (find?_apply r id e _) (map_term_apply r id e _) ?_ ?_ ?_
  · intro new hnew
    rw [entity?_apply_comment, if_pos rfl, he] at hnew
    cases hnew
    apply hold.assert
    · simp [Fact.comment?, hfact]
    · simpa [Fact.superclass?, hfact] using hold.parents
    · simpa [Fact.successor?, hfact] using hold.replacements
    · rfl
    · rfl
  · intro other new hne hnew
    rw [entity?_apply_comment, if_neg (Ne.symm hne)] at hnew
    exact ⟨new, hnew, rfl⟩
  · -- The entity has a comment exactly when a fact before has given it one.
    have hcomment := hold.comment
    rw [apply]
    cases hcomments : (Call.factsFor id log).filterMap Fact.comment? with
    | nil =>
        rw [hcomments] at hcomment
        simp [hcomment, Call.remark?, Fact.comment?, hfact, hcomments, setComment, modify]
    | cons first rest =>
        have hsome : e.comment.isSome = true := by
          rw [hcomment, hcomments]
          rfl
        have hlabel : r.label id = e.href := by
          rw [label, he]
        rw [if_pos hsome, Call.remark?, Fact.comment?, hfact, hcomments, hlabel]
        rfl

theorem Told.replacement (h : Told log r) (he : r.entity? id = some e) {fact : Fact}
    {target : Identifier} {position : EntityId}
    (hfact : fact.statement? = some (.supersededBy target)) (hfound : r.FoundAt target position) :
    Told (log ++ [.assert id fact]) (r.apply id e (.replacement position)) := by
  have hold := h.reflects id e he
  refine h.added he rfl rfl (find?_apply r id e _) (map_term_apply r id e _) ?_ ?_ ?_
  · intro new hnew
    rw [apply, addReplacement, entity?_modify, if_pos rfl, he] at hnew
    cases hnew
    apply hold.assert
    · simpa [Fact.comment?, hfact] using hold.comment
    · simpa [Fact.superclass?, hfact] using hold.parents
    · have hlast : fact.successor?.toList = [target] := by
        rw [Fact.successor?, hfact, Option.toList_some]
      rw [hlast]
      exact List.rel_append hold.replacements (.cons hfound .nil)
    · rfl
    · rfl
  · intro other new hne hnew
    exact ⟨new, entity?_modify_other hne hnew, rfl⟩
  · simp [Call.remark?, Fact.comment?, hfact, apply, addReplacement, modify]

theorem Told.parent (h : Told log r) (he : r.entity? id = some e) {fact : Fact}
    {target : Identifier} {position : EntityId}
    (hfact : fact.statement? = some (.subclassOf target)) (hfound : r.FoundAt target position) :
    Told (log ++ [.assert id fact]) (r.apply id e (.parent position)) := by
  have hold := h.reflects id e he
  -- The parent is written to as well, but gets a child only.
  have hentity : ∀ other new, (r.link id position).entity? other = some new →
      ∃ old, (r.modify id fun e => { e with parents := e.parents ++ [position] }).entity? other =
          some old ∧ new = { old with children := new.children } := by
    intro other new hnew
    rw [link, entity?_modify] at hnew
    split at hnew
    · rcases Option.map_eq_some_iff.mp hnew with ⟨old, hentity, rfl⟩
      exact ⟨old, hentity, rfl⟩
    · exact ⟨new, hnew, rfl⟩
  refine h.added he rfl rfl (find?_apply r id e _) (map_term_apply r id e _) ?_ ?_ ?_
  · intro new hnew
    rcases hentity id new hnew with ⟨child, hchild, hsame⟩
    rw [entity?_modify, if_pos rfl, he] at hchild
    cases hchild
    rw [hsame]
    apply Reflects.withChildren
    apply hold.assert
    · simpa [Fact.comment?, hfact] using hold.comment
    · have hlast : fact.superclass?.toList = [target] := by
        rw [Fact.superclass?, hfact, Option.toList_some]
      rw [hlast]
      exact List.rel_append hold.parents (.cons hfound .nil)
    · simpa [Fact.successor?, hfact] using hold.replacements
    · rfl
    · rfl
  · intro other new hne hnew
    rcases hentity other new hnew with ⟨old, hother, hsame⟩
    exact ⟨old, entity?_modify_other hne hother, hsame⟩
  · simp [Call.remark?, Fact.comment?, hfact, apply, link, modify]

theorem Told.effect (h : Told log r) (heffect : Effect r call s) : Told (log ++ [call]) s := by
  cases heffect with
  | insert hterm hfresh => exact h.insert hterm hfresh
  | assert he hstates hentails =>
      cases hentails with
      | comment text => exact h.comment he hstates
      | parent hfound _ => exact h.parent he hstates hfound
      | replacement hfound => exact h.replacement he hstates hfound
  | @property id _ property he =>
      have hmembers := @Told.members r log id _ (.addProperty id property) h he rfl rfl rfl rfl
      simpa [Call.propertyFor?, Call.enumValueFor?] using hmembers
  | @enumValue id _ value he =>
      have hmembers := @Told.members r log id _ (.addEnumValue id value) h he rfl rfl rfl rfl
      simpa [Call.propertyFor?, Call.enumValueFor?] using hmembers
  | record => exact h.record _

end

/-!
# Runs
-/

/-- A single call applies a fact exactly when it is an assertion that took effect. -/
theorem applied_of_single {r : Registry} {call : Call} (hsingle : call.isSingle = true) :
    r.applied call =
      if call.tookEffect (r.perform call).2 then call.application?.toList else [] := by
  cases call with
  | assert id fact =>
      rw [applied, appliedFact, perform]
      cases r.assert id fact with
      | error cause => rfl
      | ok answer =>
          rcases answer with ⟨flag, after⟩
          cases flag with
          | true => rfl
          | false => rfl
  | insertStandard => cases hsingle
  | load classes => cases hsingle
  | _ => exact (ite_self []).symm

section

variable {r : Registry} {calls : List Call} (hsingle : ∀ call ∈ calls, call.isSingle = true)

include hsingle

theorem Told.run {log : List Call} (h : Told log r) :
    Told (log ++ r.effective calls) (r.run calls) := by
  induction calls generalizing r log with
  | nil =>
      rw [effective, List.append_nil]
      exact h
  | cons call calls ih =>
      have hrest : ∀ later ∈ calls, later.isSingle = true := by
        intro later hlater
        exact hsingle later (List.mem_cons_of_mem call hlater)
      have hcall := hsingle call List.mem_cons_self
      rw [effective_cons]
      cases heffect : call.tookEffect (r.perform call).2 with
      | true =>
          have htold := ih hrest (h.effect (effect_of_tookEffect hcall heffect))
          rw [List.append_assoc] at htold
          exact htold
      | false =>
          have hsame := perform_of_not_tookEffect hcall heffect
          have htold : Told log (r.perform call).1 := by
            rw [hsame]
            exact h
          exact ih hrest htold

/-- The facts applied in a run are those of the calls in its log. -/
theorem history_eq_applications :
    r.history calls = (r.effective calls).filterMap Call.application? := by
  induction calls generalizing r with
  | nil => rfl
  | cons call calls ih =>
      have hrest : ∀ later ∈ calls, later.isSingle = true := by
        intro later hlater
        exact hsingle later (List.mem_cons_of_mem call hlater)
      rw [history, effective_cons, applied_of_single (hsingle call List.mem_cons_self), ih hrest]
      cases call.tookEffect (r.perform call).2 with
      | true => cases h : call.application? <;> simp [h]
      | false => rfl

end

/--
A run of single calls comes to the same registry without the calls that were refused, not
used or mere questions, and all calls that are left take effect.  The registry is told by
these calls: the registered terms in order, and for each entity the last comment, the terms
that its facts name, its properties and its enumeration values in order.  An entity is
deprecated once a replacement was named for it, its children are the subjects of the facts
that name it, and the remarks are those recorded, with one more for each comment that
replaced another one.
-/
theorem run_told_by_log {calls : List Call} (hsingle : ∀ call ∈ calls, call.isSingle = true) :
    (empty.run (empty.effective calls) = empty.run calls ∧
      empty.effective (empty.effective calls) = empty.effective calls) ∧
    (empty.run calls).entities.map Entity.term = (empty.effective calls).filterMap Call.term? ∧
    (∀ id e, (empty.run calls).entity? id = some e →
      (empty.run calls).Reflects (empty.effective calls) id e ∧
      (e.deprecated = true ↔
        ∃ fact ∈ Call.factsFor id (empty.effective calls),
          ∃ target, fact.successor? = some target) ∧
      e.children = (empty.run calls).subjectsBelow id
        ((empty.effective calls).filterMap Call.application?)) ∧
    (empty.run calls).diagnostics =
      Call.remarksAfter (empty.run calls).label [] (empty.effective calls) := by
  have htold : Told (empty.effective calls) (empty.run calls) := told_empty.run hsingle
  refine ⟨⟨run_effective hsingle empty, effective_effective hsingle empty⟩, htold.terms, ?_,
    htold.diagnostics⟩
  intro id e he
  have hreflects := htold.reflects id e he
  refine ⟨hreflects, ?_, ?_⟩
  · have hlength := hreflects.replacements.length_eq
    have hdeprecated : e.deprecated = true ↔ e.replacements ≠ [] := by
      simp [Entity.deprecated]
    rw [hdeprecated, ← List.length_pos_iff, ← hlength, List.length_pos_iff_exists_mem]
    constructor
    · intro hnamed
      rcases hnamed with ⟨target, hmem⟩
      rcases List.mem_filterMap.mp hmem with ⟨fact, hfact, hsuccessor⟩
      exact ⟨fact, hfact, target, hsuccessor⟩
    · intro hnamed
      rcases hnamed with ⟨fact, hfact, target, hsuccessor⟩
      exact ⟨target, List.mem_filterMap.mpr ⟨fact, hfact, hsuccessor⟩⟩
  · have hchildren := ((accounted_refl empty).run wellFormed_empty calls).children id
    rw [childrenOf_of_entity? he, List.nil_append, history_eq_applications hsingle] at hchildren
    exact hchildren

/-- Calls among which some are refused, not used or questions, and two comments on one class. -/
def revisedCalls : List Call :=
  [.insertClass ⟨"Work", "s:Work"⟩ false,
    .assert 0 (Statement.comment "A work.").toFact,
    .insertClass ⟨"Other", "s:Work"⟩ true,
    .insertClass ⟨"Book", "s:Book"⟩ false,
    .assert 1 (Statement.subclassOf ⟨"Work", "s:Work"⟩).toFact,
    .assert 0 (Statement.subclassOf ⟨"Book", "s:Book"⟩).toFact,
    .verdict "s:Book" (Statement.comment "A question.").toFact,
    .assert 0 ⟨"s:label", .literal "Work"⟩,
    .assert 0 (Statement.supersededBy ⟨"Work", "s:Work"⟩).toFact,
    .addProperty 2 ⟨⟨"title", "s:title"⟩, [], none, false⟩,
    .assert 0 (Statement.comment "Any work.").toFact]

/-- The calls among them that take effect. -/
def revisedLog : List Call :=
  [.insertClass ⟨"Work", "s:Work"⟩ false,
    .assert 0 (Statement.comment "A work.").toFact,
    .insertClass ⟨"Book", "s:Book"⟩ false,
    .assert 1 (Statement.subclassOf ⟨"Work", "s:Work"⟩).toFact,
    .assert 0 (Statement.supersededBy ⟨"Work", "s:Work"⟩).toFact,
    .assert 0 (Statement.comment "Any work.").toFact]

theorem revisedCalls_told_by_log :
    (∀ call ∈ revisedCalls, call.isSingle = true) ∧
      empty.effective revisedCalls = revisedLog ∧
      empty.run revisedLog = empty.run revisedCalls ∧
      (∃ work, (empty.run revisedCalls).entity? 0 = some work ∧
        work.comment = some "Any work." ∧ work.deprecated = true ∧ work.children = [1]) ∧
      (empty.run revisedCalls).diagnostics =
        [{ severity := .warning
           entity := "s:Work"
           message := "duplicate comment; previous value overwritten" }] := by
  have hsingle : ∀ call ∈ revisedCalls, call.isSingle = true := by decide
  have hlog : empty.effective revisedCalls = revisedLog := by cbv
  have htold := run_told_by_log hsingle
  rw [hlog] at htold
  rcases htold with ⟨⟨hrun, _⟩, hterms, hentities, hdiagnostics⟩
  have hsize : 0 < (empty.run revisedCalls).size := by
    have hlength := congrArg List.length hterms
    rw [List.length_map] at hlength
    rw [size, hlength]
    decide
  rcases ((empty.run revisedCalls).lt_size_iff 0).mp hsize with ⟨work, hwork⟩
  rcases hentities 0 work hwork with ⟨hreflects, hdeprecated, hchildren⟩
  have hfound : (empty.run revisedCalls).find? "s:Work" = some 0 := by cbv
  have hlabel : (empty.run revisedCalls).label 0 = "s:Work" := by cbv
  refine ⟨hsingle, hlog, hrun, ⟨work, hwork, ?_, ?_, ?_⟩, ?_⟩
  · rw [hreflects.comment]
    decide
  · apply hdeprecated.mpr
    exact ⟨(Statement.supersededBy ⟨"Work", "s:Work"⟩).toFact, by decide, ⟨"Work", "s:Work"⟩, rfl⟩
  · rw [hchildren]
    cbv
  · rw [hdiagnostics, ← hlabel]
    rfl

end Registry
end VocabTypes
