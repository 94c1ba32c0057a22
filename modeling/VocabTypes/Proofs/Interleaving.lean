import VocabTypes.Proofs.Loading
import VocabTypes.Proofs.SameListing

/-!
# Interleaving

## The order of work on different entities

Requests name entities by IRI, so they say the same in whatever order entities are
registered.  A request that succeeds changes the outline of the entity that it is
addressed to, in a way that depends on nothing else.  So the outline of an entity is
what the requests addressed to it make of it, and moving the others between them
changes no outline.
-/

namespace VocabTypes

/-- A call that names entities by their IRIs. -/
inductive Request where
  | insertClass (subject : Identifier) (allowString : Bool)
  | insertBuiltin (url typeName doc : String)
  | insertBooleanEnum (url trueUrl falseUrl doc : String)
  | insertDataTypeUnion (url : String) (members : List String) (doc : String)
  | assert (href : String) (fact : Fact)
  | addProperty (href : String) (property : Property)
  | addEnumValue (href : String) (value : EnumValue)
deriving DecidableEq

namespace Request

/-- The IRI of the entity that a request is addressed to. -/
def target : Request → String
  | insertClass subject _ => subject.href
  | insertBuiltin url .. => url
  | insertBooleanEnum url .. => url
  | insertDataTypeUnion url .. => url
  | assert href _ => href
  | addProperty href _ => href
  | addEnumValue href _ => href

/-- What a request that succeeds makes of the outline of its target. -/
def effect : Request → Option Outline → Option Outline
  | insertClass subject allowString, _ => some (.bare subject .rdfsClass allowString [])
  | insertBuiltin url typeName doc, _ =>
      some (.bare (.ofUrl url) (.builtin typeName doc) false [])
  | insertBooleanEnum url trueUrl falseUrl doc, _ =>
      some (.bare (.ofUrl url) (.booleanEnum trueUrl falseUrl doc) false [])
  | insertDataTypeUnion url members doc, _ =>
      some (.bare (.ofUrl url) (.dataTypeUnion [] doc) false members)
  | assert _ fact, o => o.map fun o => o.assert fact
  | addProperty _ property, o => o.map fun o => o.addMembers [property] []
  | addEnumValue _ value, o => o.map fun o => o.addMembers [] [value]

/-- The requests in a list that are addressed to one entity, in their order. -/
def addressedTo (href : String) (requests : List Request) : List Request :=
  requests.filter fun q => q.target = href

/-- The same requests, those addressed to any one entity in the same order. -/
def Reordering (first second : List Request) : Prop :=
  first.Perm second ∧ ∀ href, addressedTo href first = addressedTo href second

end Request

namespace Registry

/-- The call that a request amounts to, if the entities that it names are registered. -/
def call? (r : Registry) : Request → Option Call
  | .insertClass subject allowString => some (.insertClass subject allowString)
  | .insertBuiltin url typeName doc => some (.insertBuiltin url typeName doc)
  | .insertBooleanEnum url trueUrl falseUrl doc =>
      some (.insertBooleanEnum url trueUrl falseUrl doc)
  | .insertDataTypeUnion url members doc =>
      (members.mapM r.find?).map fun ids => .insertDataTypeUnion url ids doc
  | .assert href fact => (r.find? href).map fun id => .assert id fact
  | .addProperty href property => (r.find? href).map fun id => .addProperty id property
  | .addEnumValue href value => (r.find? href).map fun id => .addEnumValue id value

/-- The registry after a call, if the call succeeds. -/
def perform? (r : Registry) (call : Call) : Option Registry :=
  if (r.perform call).2.succeeded then some (r.perform call).1 else none

/-- The registry after a request, if it succeeds. -/
def request? (r : Registry) (q : Request) : Option Registry :=
  (r.call? q).bind r.perform?

/-- The registry after some requests, if all of them succeed. -/
def requests? (r : Registry) (requests : List Request) : Option Registry :=
  requests.foldlM request? r

/-!
# Calls that succeed
-/

theorem perform?_eq_some_iff {r after : Registry} {call : Call} :
    r.perform? call = some after ↔
      ∃ answer, r.perform call = (after, answer) ∧ answer.succeeded = true := by
  unfold perform?
  cases r.perform call with
  | mk next answer => simp [and_comm]

theorem registration_succeeded {r after : Registry}
    {outcome : Except Rejection (EntityId × Registry)} {answer : Answer}
    (h : r.registration outcome = (after, answer)) (hanswer : answer.succeeded = true) :
    ∃ id, outcome = .ok (id, after) := by
  cases outcome with
  | error cause =>
      cases h
      cases hanswer
  | ok registered =>
      rcases registered with ⟨id, next⟩
      cases h
      exact ⟨id, rfl⟩

theorem change_succeeded {r after : Registry} {outcome : Except Rejection Registry}
    {answer : Answer} (h : r.change outcome = (after, answer))
    (hanswer : answer.succeeded = true) : outcome = .ok after := by
  cases outcome with
  | error cause =>
      cases h
      cases hanswer
  | ok next =>
      cases h
      rfl

theorem assert_succeeded {r after : Registry} {id : EntityId} {fact : Fact} {answer : Answer}
    (h : r.perform (.assert id fact) = (after, answer)) (hanswer : answer.succeeded = true) :
    ∃ flag, r.assert id fact = .ok (flag, after) := by
  rw [perform] at h
  cases hassert : r.assert id fact with
  | error cause =>
      rw [hassert] at h
      cases h
      cases hanswer
  | ok outcome =>
      rcases outcome with ⟨flag, next⟩
      rw [hassert] at h
      cases h
      exact ⟨flag, rfl⟩

theorem WellFormed.request? {r after : Registry} (h : r.WellFormed) {q : Request}
    (hrequest : r.request? q = some after) : after.WellFormed := by
  rcases Option.bind_eq_some_iff.mp hrequest with ⟨call, _, hperform⟩
  rcases perform?_eq_some_iff.mp hperform with ⟨answer, hpair, _⟩
  have hsteps := r.perform_steps call
  rw [hpair] at hsteps
  exact h.steps hsteps

/-!
# One request
-/

theorem WellFormed.outline?_insert {r after : Registry} (h : r.WellFormed)
    {subject : Identifier} {kind : Kind} {allowString : Bool} {id : EntityId}
    (hkind : r.AdmitsKind kind) (hinsert : r.insert subject kind allowString = .ok (id, after))
    (href : String) :
    after.outline? href =
      if href = subject.href then some (.bare subject kind allowString (r.hrefs kind.members))
      else r.outline? href := by
  rcases insert_eq_ok_iff.mp hinsert with ⟨hfresh, _, hafter⟩
  rw [hafter]
  exact h.outline?_append hfresh hkind href

/-- Ids that have been found by IRI stand for those IRIs. -/
theorem Indexed.hrefs_eq_of_mapM {r : Registry} (h : r.Indexed) {members : List String}
    {ids : List EntityId} (hfound : members.mapM r.find? = some ids) : r.hrefs ids = members := by
  induction members generalizing ids with
  | nil =>
      cases hfound
      rfl
  | cons member members ih =>
      rw [List.mapM_cons] at hfound
      rcases Option.bind_eq_some_iff.mp hfound with ⟨id, hid, hrest⟩
      rcases Option.bind_eq_some_iff.mp hrest with ⟨others, hothers, hids⟩
      cases hids
      rcases (h member id).mp hid with ⟨e, he, hhref⟩
      have htail := ih hothers
      rw [hrefs, resolve, List.filterMap_cons, he, List.map_cons, hhref]
      rw [hrefs, resolve] at htail
      rw [htail]

theorem Indexed.outline?_addProperty {r after : Registry} (h : r.Indexed) {id : EntityId}
    {e : Entity} (he : r.entity? id = some e) {property : Property}
    (hadd : r.addProperty id property = .ok after) (href : String) :
    after.outline? href =
      if href = e.href then some ((r.outline e).addMembers [property] [])
      else r.outline? href := by
  have hmembers := h.outline?_members he [property] [] href
  simp only [List.append_nil] at hmembers
  rw [(addProperty_eq_ok hadd).right]
  exact hmembers

theorem Indexed.outline?_addEnumValue {r after : Registry} (h : r.Indexed) {id : EntityId}
    {e : Entity} (he : r.entity? id = some e) {value : EnumValue}
    (hadd : r.addEnumValue id value = .ok after) (href : String) :
    after.outline? href =
      if href = e.href then some ((r.outline e).addMembers [] [value])
      else r.outline? href := by
  have hmembers := h.outline?_members he [] [value] href
  simp only [List.append_nil] at hmembers
  rw [(addEnumValue_eq_ok hadd).right]
  exact hmembers

theorem Indexed.edited_outline {r : Registry} (h : r.Indexed) {id : EntityId} {e : Entity}
    (he : r.entity? id = some e) (edit : Outline → Outline) (href : String) :
    (if href = e.href then some (edit (r.outline e)) else r.outline? href) =
      if href = e.href then (r.outline? href).map edit else r.outline? href := by
  by_cases hsame : href = e.href
  · rw [if_pos hsame, if_pos hsame, hsame, h.outline?_href he, Option.map_some]
  · rw [if_neg hsame, if_neg hsame]

/-- A request that succeeds changes the outline of its target, as the request says. -/
theorem WellFormed.outline?_request {r after : Registry} (h : r.WellFormed) {q : Request}
    (hrequest : r.request? q = some after) (href : String) :
    after.outline? href =
      if href = q.target then q.effect (r.outline? href) else r.outline? href := by
  rcases Option.bind_eq_some_iff.mp hrequest with ⟨call, hcall, hperform⟩
  rcases perform?_eq_some_iff.mp hperform with ⟨answer, hpair, hanswer⟩
  cases q with
  | insertClass subject allowString =>
      cases hcall
      rcases registration_succeeded hpair hanswer with ⟨id, hinsert⟩
      exact h.outline?_insert (admitsKind_of_not_union rfl) hinsert href
  | insertBuiltin url typeName doc =>
      cases hcall
      rcases registration_succeeded hpair hanswer with ⟨id, hinsert⟩
      exact h.outline?_insert (admitsKind_of_not_union rfl) hinsert href
  | insertBooleanEnum url trueUrl falseUrl doc =>
      cases hcall
      rcases registration_succeeded hpair hanswer with ⟨id, hinsert⟩
      exact h.outline?_insert (admitsKind_of_not_union rfl) hinsert href
  | insertDataTypeUnion url members doc =>
      rcases Option.map_eq_some_iff.mp hcall with ⟨ids, hids, hunion⟩
      cases hunion
      rcases registration_succeeded hpair hanswer with ⟨id, hunion⟩
      rcases insertDataTypeUnion_eq_ok hunion with ⟨hkind, hinsert⟩
      have houtline := h.outline?_insert hkind hinsert href
      rw [Kind.members, h.indexed.hrefs_eq_of_mapM hids] at houtline
      exact houtline
  | assert subject fact =>
      rcases Option.map_eq_some_iff.mp hcall with ⟨id, hid, hassert⟩
      cases hassert
      rcases (h.indexed subject id).mp hid with ⟨e, he, hhref⟩
      rcases assert_succeeded hpair hanswer with ⟨flag, hassert⟩
      rw [h.indexed.outline?_assert he hassert,
        h.indexed.edited_outline he (fun o => o.assert fact), hhref]
      rfl
  | addProperty subject property =>
      rcases Option.map_eq_some_iff.mp hcall with ⟨id, hid, hadd⟩
      cases hadd
      rcases (h.indexed subject id).mp hid with ⟨e, he, hhref⟩
      rw [h.indexed.outline?_addProperty he (change_succeeded hpair hanswer),
        h.indexed.edited_outline he (fun o => o.addMembers [property] []), hhref]
      rfl
  | addEnumValue subject value =>
      rcases Option.map_eq_some_iff.mp hcall with ⟨id, hid, hadd⟩
      cases hadd
      rcases (h.indexed subject id).mp hid with ⟨e, he, hhref⟩
      rw [h.indexed.outline?_addEnumValue he (change_succeeded hpair hanswer),
        h.indexed.edited_outline he (fun o => o.addMembers [] [value]), hhref]
      rfl

/-!
# Many requests
-/

theorem requests?_cons {r : Registry} (q : Request) (requests : List Request) :
    r.requests? (q :: requests) = (r.request? q).bind fun next => next.requests? requests :=
  rfl

theorem WellFormed.requests? {r after : Registry} (h : r.WellFormed) {requests : List Request}
    (hrun : r.requests? requests = some after) : after.WellFormed := by
  induction requests generalizing r with
  | nil =>
      cases hrun
      exact h
  | cons q requests ih =>
      rw [requests?_cons] at hrun
      rcases Option.bind_eq_some_iff.mp hrun with ⟨next, hnext, hrest⟩
      exact ih (h.request? hnext) hrest

/-- An outline is what the requests addressed to its entity make of it, one after the other. -/
theorem WellFormed.outline?_requests {r after : Registry} (h : r.WellFormed)
    {requests : List Request} (hrun : r.requests? requests = some after) (href : String) :
    after.outline? href =
      (Request.addressedTo href requests).foldl (fun o q => q.effect o) (r.outline? href) := by
  induction requests generalizing r with
  | nil =>
      cases hrun
      rfl
  | cons q requests ih =>
      rw [requests?_cons] at hrun
      rcases Option.bind_eq_some_iff.mp hrun with ⟨next, hnext, hrest⟩
      have hstep := h.outline?_request hnext href
      have htail := ih (h.request? hnext) hrest
      unfold Request.addressedTo at htail ⊢
      by_cases htarget : q.target = href
      · rw [if_pos htarget.symm] at hstep
        rw [List.filter_cons_of_pos (by simpa using htarget), List.foldl_cons, ← hstep]
        exact htail
      · rw [if_neg (Ne.symm htarget)] at hstep
        rw [List.filter_cons_of_neg (by simpa using htarget), ← hstep]
        exact htail

theorem WellFormed.sameOutlines_of_reordering {b r s : Registry} (h : b.WellFormed)
    {first second : List Request} (horder : Request.Reordering first second)
    (hfirst : b.requests? first = some r) (hsecond : b.requests? second = some s) :
    SameOutlines r s := by
  intro href
  rw [h.outline?_requests hfirst, h.outline?_requests hsecond, horder.right]

/-!
# Loading classes

A class that is loaded gets an outline that the class alone determines.
-/

end Registry

/-- The outline of a class that has been loaded. -/
def SourceClass.outline (c : SourceClass) : Outline :=
  (c.facts.foldl Outline.assert (.bare c.subject .rdfsClass c.allowString [])).addMembers
    c.properties c.enumValues

namespace Registry

theorem Grown.outline?_assert {b s after : Registry} {id : EntityId} {href : String}
    (h : Grown b id href s) {fact : Fact} {flag : Bool}
    (hassert : s.assert id fact = .ok (flag, after)) (other : String) :
    after.outline? other =
      if other = href then (s.outline? other).map fun o => o.assert fact
      else s.outline? other := by
  rcases h.entity? with ⟨e, he, hhref⟩
  have hindexed := h.wellFormed.indexed
  rw [hindexed.outline?_assert he hassert, hindexed.edited_outline he (fun o => o.assert fact),
    hhref]

theorem Grown.outline?_addMembers {b s : Registry} {id : EntityId} {href : String}
    (h : Grown b id href s) (c : SourceClass) (other : String) :
    (s.addMembers id c).outline? other =
      if other = href then
        (s.outline? other).map fun o => o.addMembers c.properties c.enumValues
      else s.outline? other := by
  rcases h.entity? with ⟨e, he, hhref⟩
  have hindexed := h.wellFormed.indexed
  rw [addMembers, hindexed.outline?_members he,
    hindexed.edited_outline he (fun o => o.addMembers c.properties c.enumValues), hhref]

theorem unused_of_verdict {r : Registry} {href : String} {fact : Fact}
    (h : r.verdict href fact = .ok false) : fact.statement? = none := by
  rcases verdict_eq_ok_iff.mp h with ⟨hnone, _⟩ | ⟨_, _, _, _, hflag⟩
  · exact hnone
  · cases hflag

/-- Facts judged before their class was registered change its outline in turn, and no other. -/
theorem Grown.outline?_assertAll {b s after : Registry} {id : EntityId} {href : String}
    (h : Grown b id href s) {judged : List (Fact × Bool)}
    (hverdicts : ∀ fact flag, (fact, flag) ∈ judged → b.verdict href fact = .ok flag)
    (hassert : s.assertAll id href judged = (after, .ok ())) (other : String) :
    after.outline? other =
      if other = href then
        (s.outline? other).map fun o => (judged.map Prod.fst).foldl Outline.assert o
      else s.outline? other := by
  induction judged generalizing s with
  | nil =>
      cases hassert
      by_cases hsame : other = href
      · simp [hsame]
      · simp [hsame]
  | cons first judged ih =>
      rcases first with ⟨fact, flag⟩
      have hfirst := hverdicts fact flag List.mem_cons_self
      have hrest : ∀ other flag, (other, flag) ∈ judged → b.verdict href other = .ok flag := by
        intro other flag hmem
        exact hverdicts other flag (List.mem_cons_of_mem _ hmem)
      rw [List.map_cons]
      cases flag with
      | false =>
          rw [assertAll] at hassert
          have htail := ih (h.record _) hrest hassert
          have hunused : ∀ o : Outline, o.assert fact = o := by
            intro o
            rw [Outline.assert, unused_of_verdict hfirst]
          simp only [List.foldl_cons, hunused]
          exact htail
      | true =>
          rcases h.assert_ok hfirst with ⟨next, hused, hnext⟩
          rw [assertAll, hused] at hassert
          rw [ih hnext hrest hassert, h.outline?_assert hused]
          by_cases hsame : other = href
          · simp [hsame, Function.comp_def]
          · simp [hsame]

theorem WellFormed.outline?_loadClass {r after : Registry} (h : r.WellFormed) {c : SourceClass}
    (hload : r.loadClass c = (after, .ok ())) :
    r.outline? c.subject.href = none ∧
      ∀ href, after.outline? href =
        if href = c.subject.href then some c.outline else r.outline? href := by
  cases hverdicts : r.verdicts c.subject.href c.facts with
  | error cause =>
      rw [loadClass_eq_of_refused hverdicts] at hload
      cases hload
  | ok used =>
      cases hinsert : r.insertClass c.subject c.allowString with
      | error cause =>
          rw [loadClass_eq_of_taken hverdicts hinsert] at hload
          cases hload
      | ok answer =>
          rcases answer with ⟨id, next⟩
          rcases verdicts_eq_ok hverdicts with ⟨hlength, hall⟩
          rcases h.loadClass_ok hverdicts hinsert with ⟨last, hassert, hlast, hok⟩
          rw [hok] at hload
          cases hload
          rcases insert_eq_ok_iff.mp hinsert with ⟨hfresh, _, _⟩
          constructor
          · rw [outline?, entityOf?, hfresh]
            rfl
          · intro href
            rw [hlast.outline?_addMembers, (h.grown hinsert).outline?_assertAll hall hassert,
              List.map_fst_zip (Nat.le_of_eq hlength.symm),
              h.outline?_insert (admitsKind_of_not_union rfl) hinsert]
            by_cases hsame : href = c.subject.href
            · simp only [if_pos hsame]
              rfl
            · simp only [if_neg hsame]

theorem WellFormed.outline?_load {r after : Registry} (h : r.WellFormed)
    {classes : List SourceClass} (hload : r.load classes = (after, .ok ())) :
    (∀ c ∈ classes, r.outline? c.subject.href = none ∧
      after.outline? c.subject.href = some c.outline) ∧
      ∀ href, (∀ c ∈ classes, c.subject.href ≠ href) → after.outline? href = r.outline? href := by
  induction classes generalizing r with
  | nil =>
      cases hload
      constructor
      · intro c hc
        cases hc
      · intro href _
        rfl
  | cons c classes ih =>
      cases hclass : r.loadClass c with
      | mk next outcome =>
          cases outcome with
          | error failure =>
              rw [load, hclass] at hload
              cases hload
          | ok _ =>
              rw [load_cons_of_ok hclass] at hload
              have hsteps := r.loadClass_steps c
              rw [hclass] at hsteps
              rcases h.outline?_loadClass hclass with ⟨hfresh, hnext⟩
              rcases ih (h.steps hsteps) hload with ⟨hrest, hothers⟩
              have hown : next.outline? c.subject.href = some c.outline := by
                rw [hnext, if_pos rfl]
              have hdistinct : ∀ later ∈ classes, later.subject.href ≠ c.subject.href := by
                intro later hlater hsame
                have hnone := (hrest later hlater).left
                rw [hsame, hown] at hnone
                cases hnone
              constructor
              · intro known hknown
                rcases List.mem_cons.mp hknown with hhead | hlater
                · rw [hhead]
                  refine ⟨hfresh, ?_⟩
                  rw [hothers _ hdistinct]
                  exact hown
                · rcases hrest known hlater with ⟨hnone, hafter⟩
                  rw [hnext, if_neg (hdistinct known hlater)] at hnone
                  exact ⟨hnone, hafter⟩
              · intro href hother
                rw [hothers href fun later hlater => hother later (List.mem_cons_of_mem c hlater),
                  hnext, if_neg (Ne.symm (hother c List.mem_cons_self))]

theorem WellFormed.sameOutlines_of_perm {b r s : Registry} (h : b.WellFormed)
    {first second : List SourceClass} (hperm : first.Perm second)
    (hfirst : b.load first = (r, .ok ())) (hsecond : b.load second = (s, .ok ())) :
    SameOutlines r s := by
  rcases h.outline?_load hfirst with ⟨hknown, hothers⟩
  rcases h.outline?_load hsecond with ⟨hknown', hothers'⟩
  intro href
  by_cases hloaded : ∃ c ∈ first, c.subject.href = href
  · rcases hloaded with ⟨c, hc, hhref⟩
    rw [← hhref, (hknown c hc).right, (hknown' c (hperm.mem_iff.mp hc)).right]
  · have hnone : ∀ c ∈ first, c.subject.href ≠ href := by
      intro c hc hhref
      exact hloaded ⟨c, hc, hhref⟩
    rw [hothers href hnone, hothers' href fun c hc => hnone c (hperm.mem_iff.mpr hc)]

/--
Listings do not depend on the order in which different entities were worked on, nor on
the order in which classes were loaded, provided that nothing is refused in either order.
-/
theorem listing_independent_of_order {b : Registry} (hb : b.Reachable) (o : Options) :
    (∀ first second r s, Request.Reordering first second →
      b.requests? first = some r → b.requests? second = some s →
        (r.listing o).SameOutput (s.listing o)) ∧
      ∀ first second r s, first.Perm second →
        b.load first = (r, .ok ()) → b.load second = (s, .ok ()) →
          (r.listing o).SameOutput (s.listing o) := by
  have h := hb.wellFormed
  constructor
  · intro first second r s horder hfirst hsecond
    have houtlines := h.sameOutlines_of_reordering horder hfirst hsecond
    exact houtlines.sameOutput (h.requests? hfirst) (h.requests? hsecond) o
  · intro first second r s hperm hfirst hsecond
    have houtlines := h.sameOutlines_of_perm hperm hfirst hsecond
    have hr := h.steps (b.load_steps first)
    have hs := h.steps (b.load_steps second)
    rw [hfirst] at hr
    rw [hsecond] at hs
    exact houtlines.sameOutput hr hs o

/-- Some requests about a class, a data type and a class below the first one. -/
def thingFirst : List Request :=
  [.insertBuiltin "s:Text" "string" "",
    .insertClass ⟨"Thing", "s:Thing"⟩ false,
    .insertClass ⟨"Film", "s:Film"⟩ true,
    .assert "s:Film" (Statement.subclassOf ⟨"Thing", "s:Thing"⟩).toFact,
    .addEnumValue "s:Thing" ⟨⟨"One", "s:One"⟩, none⟩,
    .addEnumValue "s:Thing" ⟨⟨"Two", "s:Two"⟩, none⟩]

/-- The same requests, the class below registered first. -/
def filmFirst : List Request :=
  [.insertClass ⟨"Film", "s:Film"⟩ true,
    .insertClass ⟨"Thing", "s:Thing"⟩ false,
    .addEnumValue "s:Thing" ⟨⟨"One", "s:One"⟩, none⟩,
    .assert "s:Film" (Statement.subclassOf ⟨"Thing", "s:Thing"⟩).toFact,
    .insertBuiltin "s:Text" "string" "",
    .addEnumValue "s:Thing" ⟨⟨"Two", "s:Two"⟩, none⟩]

theorem reordering_thingFirst_filmFirst : Request.Reordering thingFirst filmFirst := by
  constructor
  · decide
  · intro href
    by_cases hthing : "s:Thing" = href
    · subst hthing
      decide
    · by_cases hfilm : "s:Film" = href
      · subst hfilm
        decide
      · by_cases htext : "s:Text" = href
        · subst htext
          decide
        · simp [Request.addressedTo, thingFirst, filmFirst, Request.target, hthing, hfilm, htext]

/-- A class that descends from none. -/
def filmClass : SourceClass :=
  { subject := ⟨"Film", "s:Film"⟩
    allowString := true
    facts := [(Statement.comment "A film.").toFact]
    properties := []
    enumValues := [] }

theorem listing_of_thingFirst_filmFirst :
    empty.Reachable ∧ Request.Reordering thingFirst filmFirst ∧
      (∃ r s, empty.requests? thingFirst = some r ∧ empty.requests? filmFirst = some s ∧
        r.find? "s:Film" = some 2 ∧ s.find? "s:Film" = some 0 ∧
          (r.listing .standard).SameOutput (s.listing .standard)) ∧
      ∃ r s, empty.load [thingClass, filmClass] = (r, .ok ()) ∧
        empty.load [filmClass, thingClass] = (s, .ok ()) ∧
          (r.listing .standard).SameOutput (s.listing .standard) := by
  have hb : empty.Reachable := ⟨[], rfl⟩
  have hfirst : (empty.requests? thingFirst).bind (fun r => r.find? "s:Film") = some 2 := by cbv
  have hsecond : (empty.requests? filmFirst).bind (fun s => s.find? "s:Film") = some 0 := by cbv
  rcases Option.bind_eq_some_iff.mp hfirst with ⟨r, hr, hfound⟩
  rcases Option.bind_eq_some_iff.mp hsecond with ⟨s, hs, hother⟩
  have hthing : (empty.load [thingClass, filmClass]).2 = .ok () := by cbv
  have hfilm : (empty.load [filmClass, thingClass]).2 = .ok () := by cbv
  have hindependent := listing_independent_of_order hb .standard
  refine ⟨hb, reordering_thingFirst_filmFirst, ?_, ?_⟩
  · refine ⟨r, s, hr, hs, hfound, hother, ?_⟩
    exact hindependent.left _ _ r s reordering_thingFirst_filmFirst hr hs
  · refine ⟨_, _, Prod.ext rfl hthing, Prod.ext rfl hfilm, ?_⟩
    exact hindependent.right _ _ _ _ (List.Perm.swap _ _ _) (Prod.ext rfl hthing)
      (Prod.ext rfl hfilm)

end Registry
end VocabTypes
