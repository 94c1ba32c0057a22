import Mathlib.Data.List.Basic
import VocabTypes.Proofs.WellFormed

/-!
# Outlines

## What a registry says about an IRI

Ids depend on the order of registration and so do the links between entities.  The
outline of an entity has its links written as IRIs instead, and leaves out its
children, who are told by the parents of the others.  Every change of the table is
a change of the outline of one IRI.
-/

namespace VocabTypes

/-- A kind without the ids that it points at. -/
def Kind.unlinked : Kind → Kind
  | .dataTypeUnion _ doc => .dataTypeUnion [] doc
  | .rdfsClass => .rdfsClass
  | .builtin typeName doc => .builtin typeName doc
  | .booleanEnum trueUrl falseUrl doc => .booleanEnum trueUrl falseUrl doc

/-- All of an entity but its links. -/
def Entity.content (e : Entity) : Entity :=
  { e with kind := e.kind.unlinked, parents := [], children := [], replacements := [] }

structure Outline where
  content : Entity
  parents : List String
  replacements : List String
  members : List String

namespace Outline

def state (o : Outline) : Statement → Outline
  | .comment text => { o with content := { o.content with comment := some text } }
  | .subclassOf parent => { o with parents := o.parents ++ [parent.href] }
  | .supersededBy target => { o with replacements := o.replacements ++ [target.href] }

def assert (o : Outline) (fact : Fact) : Outline :=
  match fact.statement? with
  | none => o
  | some statement => o.state statement

def addMembers (o : Outline) (properties : List Property) (values : List EnumValue) : Outline :=
  { o with
    content :=
      { o.content with
        properties := o.content.properties ++ properties
        enumValues := o.content.enumValues ++ values } }

/-- The outline of an entity about which nothing has been said yet. -/
def bare (subject : Identifier) (kind : Kind) (allowString : Bool) (members : List String) :
    Outline :=
  { content := (Entity.bare subject kind allowString).content
    parents := []
    replacements := []
    members := members }

end Outline

namespace Registry

/-- The IRIs of the entities behind a list of ids. -/
def hrefs (r : Registry) (ids : List EntityId) : List String :=
  (r.resolve ids).map Entity.href

def outline (r : Registry) (e : Entity) : Outline :=
  { content := e.content
    parents := r.hrefs e.parents
    replacements := r.hrefs e.replacements
    members := r.hrefs e.kind.members }

def entityOf? (r : Registry) (href : String) : Option Entity :=
  (r.find? href).bind r.entity?

/-- The outline of the entity known by an IRI. -/
def outline? (r : Registry) (href : String) : Option Outline :=
  (r.entityOf? href).map r.outline

/-!
# Entities by IRI
-/

theorem Indexed.entityOf?_eq_some_iff {r : Registry} (h : r.Indexed) {href : String}
    {e : Entity} :
    r.entityOf? href = some e ↔ ∃ id, r.entity? id = some e ∧ e.href = href := by
  unfold entityOf?
  rw [Option.bind_eq_some_iff]
  constructor
  · intro hfound
    rcases hfound with ⟨id, hid, he⟩
    rcases (h href id).mp hid with ⟨known, hknown, hhref⟩
    rw [he] at hknown
    cases hknown
    exact ⟨id, he, hhref⟩
  · intro hknown
    rcases hknown with ⟨id, he, hhref⟩
    exact ⟨id, (h href id).mpr ⟨e, he, hhref⟩, he⟩

theorem Indexed.entityOf?_href {r : Registry} (h : r.Indexed) {id : EntityId} {e : Entity}
    (he : r.entity? id = some e) : r.entityOf? e.href = some e :=
  h.entityOf?_eq_some_iff.mpr ⟨id, he, rfl⟩

theorem Indexed.outline?_href {r : Registry} (h : r.Indexed) {id : EntityId} {e : Entity}
    (he : r.entity? id = some e) : r.outline? e.href = some (r.outline e) := by
  rw [outline?, h.entityOf?_href he]
  rfl

theorem Indexed.find?_href {r : Registry} (h : r.Indexed) {id : EntityId} {e : Entity}
    (he : r.entity? id = some e) : r.find? e.href = some id :=
  (h e.href id).mpr ⟨e, he, rfl⟩

/-!
# Registration
-/

theorem hrefs_append {r : Registry} {e : Entity} {ids : List EntityId}
    (hids : ∀ id ∈ ids, id < r.size) : (r.append e).hrefs ids = r.hrefs ids := by
  have hresolve : (r.append e).resolve ids = r.resolve ids := by
    apply List.filterMap_congr
    intro id hid
    rw [entity?_append, if_neg (Nat.ne_of_lt (hids id hid))]
  rw [hrefs, hresolve, hrefs]

theorem Issued.outline_append {r : Registry} (h : r.Issued) {e new : Entity} {id : EntityId}
    (he : r.entity? id = some e) : (r.append new).outline e = r.outline e := by
  unfold outline
  rw [hrefs_append (h.parents_lt he), hrefs_append (h.replacements_lt he),
    hrefs_append (h.members_lt he)]

theorem outline_bare {r : Registry} {subject : Identifier} {kind : Kind} {allowString : Bool} :
    r.outline (.bare subject kind allowString) =
      .bare subject kind allowString (r.hrefs kind.members) :=
  rfl

theorem WellFormed.outline?_append {r : Registry} (h : r.WellFormed) {subject : Identifier}
    {kind : Kind} {allowString : Bool} (hfresh : r.find? subject.href = none)
    (hkind : r.AdmitsKind kind) (href : String) :
    (r.append (.bare subject kind allowString)).outline? href =
      if href = subject.href then some (.bare subject kind allowString (r.hrefs kind.members))
      else r.outline? href := by
  have hafter : (r.append (.bare subject kind allowString)).WellFormed := h.append hfresh hkind
  by_cases hsame : href = subject.href
  · rw [if_pos hsame, hsame]
    have hlast : (r.append (.bare subject kind allowString)).entity? r.size =
        some (.bare subject kind allowString) := by
      rw [entity?_append, if_pos rfl]
    have houtline := hafter.indexed.outline?_href hlast
    rw [Entity.href_bare, outline_bare, hrefs_append hkind.members_lt] at houtline
    exact houtline
  · rw [if_neg hsame]
    unfold outline? entityOf?
    rw [find?_append, Entity.href_bare, if_neg hsame]
    cases hfound : r.find? href with
    | none => rfl
    | some id =>
        have hne : id ≠ r.size := Nat.ne_of_lt (h.lt_of_find? hfound)
        rw [Option.bind_some, Option.bind_some, entity?_append, if_neg hne]
        cases he : r.entity? id with
        | none => rfl
        | some e => rw [Option.map_some, Option.map_some, h.issued.outline_append he]

/-!
# Rewriting an entity
-/

theorem hrefs_modify {r : Registry} {id : EntityId} {f : Entity → Entity}
    (hf : ∀ e, (f e).href = e.href) (ids : List EntityId) :
    (r.modify id f).hrefs ids = r.hrefs ids := by
  unfold hrefs resolve
  rw [List.map_filterMap, List.map_filterMap]
  apply List.filterMap_congr
  intro other _
  rw [entity?_modify]
  by_cases hsame : id = other
  · rw [if_pos hsame, Option.map_map]
    have hhref : Entity.href ∘ f = Entity.href := funext hf
    rw [hhref]
  · rw [if_neg hsame]

theorem outline_modify {r : Registry} {id : EntityId} {f : Entity → Entity}
    (hf : ∀ e, (f e).href = e.href) (e : Entity) :
    (r.modify id f).outline e = r.outline e := by
  unfold outline
  rw [hrefs_modify hf, hrefs_modify hf, hrefs_modify hf]

theorem Indexed.outline?_modify {r : Registry} (h : r.Indexed) {id : EntityId} {e : Entity}
    (he : r.entity? id = some e) {f : Entity → Entity} (hf : ∀ e, (f e).href = e.href)
    (href : String) :
    (r.modify id f).outline? href =
      if href = e.href then some (r.outline (f e)) else r.outline? href := by
  unfold outline? entityOf?
  rw [find?_modify]
  by_cases hsame : href = e.href
  · rw [if_pos hsame, hsame, h.find?_href he, Option.bind_some, entity?_modify, if_pos rfl, he]
    rw [Option.map_some, Option.map_some, outline_modify hf]
  · rw [if_neg hsame]
    cases hfound : r.find? href with
    | none => rfl
    | some other =>
        have hne : id ≠ other := by
          intro hid
          subst hid
          rcases (h href id).mp hfound with ⟨known, hknown, hhref⟩
          rw [he] at hknown
          cases hknown
          exact hsame hhref.symm
        rw [Option.bind_some, Option.bind_some, entity?_modify, if_neg hne]
        cases r.entity? other with
        | none => rfl
        | some old => rw [Option.map_some, Option.map_some, outline_modify hf]

/-!
# Changes

The outline of a new child changes with the link to its parent, that of the parent
does not.
-/

theorem hrefs_append_of_entity? {r : Registry} {ids : List EntityId} {id : EntityId}
    {e : Entity} (he : r.entity? id = some e) :
    r.hrefs (ids ++ [id]) = r.hrefs ids ++ [e.href] := by
  simp [hrefs, resolve, he]

theorem Indexed.outline?_setComment {r : Registry} (h : r.Indexed) {id : EntityId}
    {e : Entity} (he : r.entity? id = some e) (text href : String) :
    (r.setComment id text).outline? href =
      if href = e.href then some ((r.outline e).state (.comment text)) else r.outline? href :=
  h.outline?_modify he (fun _ => by rfl) href

theorem Indexed.outline?_addReplacement {r : Registry} (h : r.Indexed) {id target : EntityId}
    {e new : Entity} (he : r.entity? id = some e) (hnew : r.entity? target = some new)
    {object : Identifier} (hobject : new.href = object.href) (href : String) :
    (r.addReplacement id target).outline? href =
      if href = e.href then some ((r.outline e).state (.supersededBy object))
      else r.outline? href := by
  have hstate :
      r.outline { e with replacements := e.replacements ++ [target] } =
        (r.outline e).state (.supersededBy object) := by
    rw [Outline.state, ← hobject]
    unfold outline
    rw [hrefs_append_of_entity? hnew]
    rfl
  rw [← hstate]
  exact h.outline?_modify he (fun _ => by rfl) href

theorem Indexed.outline?_link {r : Registry} (h : r.Indexed) {child parent : EntityId}
    {e above : Entity} (he : r.entity? child = some e) (habove : r.entity? parent = some above)
    {object : Identifier} (hobject : above.href = object.href) (href : String) :
    (r.link child parent).outline? href =
      if href = e.href then some ((r.outline e).state (.subclassOf object))
      else r.outline? href := by
  let linked := r.modify child fun e => { e with parents := e.parents ++ [parent] }
  have hindexed : linked.Indexed := h.modify fun _ => rfl
  have hstate :
      r.outline { e with parents := e.parents ++ [parent] } =
        (r.outline e).state (.subclassOf object) := by
    rw [Outline.state, ← hobject]
    unfold outline
    rw [hrefs_append_of_entity? habove]
    rfl
  have hchild : ∀ other, linked.outline? other =
      if other = e.href then some ((r.outline e).state (.subclassOf object))
      else r.outline? other := by
    intro other
    have hmodify := h.outline?_modify he (f := fun e => { e with parents := e.parents ++ [parent] })
      (fun _ => rfl) other
    rw [hstate] at hmodify
    exact hmodify
  have hissued : ∃ old, linked.entity? parent = some old := by
    rw [← lt_size_iff, size_modify]
    exact (r.lt_size_iff parent).mpr ⟨above, habove⟩
  rcases hissued with ⟨old, hold⟩
  have hparent : (r.link child parent).outline? href = linked.outline? href := by
    have hmodify := hindexed.outline?_modify hold
      (f := fun e => { e with children := e.children ++ [child] }) (fun _ => rfl) href
    have hsame : linked.outline { old with children := old.children ++ [child] } =
        linked.outline old := rfl
    rw [hsame] at hmodify
    by_cases hhref : href = old.href
    · rw [if_pos hhref] at hmodify
      rw [hhref, hindexed.outline?_href hold, ← hhref]
      exact hmodify
    · rw [if_neg hhref] at hmodify
      exact hmodify
  rw [hparent, hchild]

theorem Indexed.outline?_apply {r : Registry} (h : r.Indexed) {id : EntityId} {e : Entity}
    (he : r.entity? id = some e) {statement : Statement} {change : Change}
    (hentails : r.Entails e.href statement change) (href : String) :
    (r.apply id e change).outline? href =
      if href = e.href then some ((r.outline e).state statement) else r.outline? href := by
  cases hentails with
  | comment text =>
      rw [apply]
      split
      · exact h.outline?_setComment he text href
      · exact h.outline?_setComment he text href
  | parent hfound _ =>
      rcases (h _ _).mp hfound with ⟨above, habove, hobject⟩
      exact h.outline?_link he habove hobject href
  | replacement hfound =>
      rcases (h _ _).mp hfound with ⟨new, hnew, hobject⟩
      exact h.outline?_addReplacement he hnew hobject href

/-- Asserting a fact changes the outline of the entity that it is about, as the fact says. -/
theorem Indexed.outline?_assert {r after : Registry} (h : r.Indexed) {id : EntityId}
    {e : Entity} (he : r.entity? id = some e) {fact : Fact} {flag : Bool}
    (hassert : r.assert id fact = .ok (flag, after)) (href : String) :
    after.outline? href =
      if href = e.href then some ((r.outline e).assert fact) else r.outline? href := by
  rcases assert_eq_ok_iff.mp hassert with ⟨known, hknown, hcase⟩
  rw [he] at hknown
  cases hknown
  rcases hcase with ⟨hunused, _, hafter⟩ | ⟨change, hchange, _, hafter⟩
  · rw [hafter, Outline.assert, change?_eq_ok_none_iff.mp hunused]
    by_cases hsame : href = e.href
    · rw [if_pos hsame, hsame, h.outline?_href he]
    · rw [if_neg hsame]
  · rcases change?_eq_ok_some_iff.mp hchange with ⟨statement, hstatement, hentails⟩
    rw [hafter, Outline.assert, hstatement]
    exact h.outline?_apply he hentails href

theorem Indexed.outline?_members {r : Registry} (h : r.Indexed) {id : EntityId} {e : Entity}
    (he : r.entity? id = some e) (properties : List Property) (values : List EnumValue)
    (href : String) :
    (r.modify id fun e =>
        { e with
          properties := e.properties ++ properties
          enumValues := e.enumValues ++ values }).outline? href =
      if href = e.href then some ((r.outline e).addMembers properties values)
      else r.outline? href :=
  h.outline?_modify he (fun _ => by rfl) href

end Registry
end VocabTypes
