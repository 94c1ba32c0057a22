import VocabTypes.Proofs.WellFormed

/-!
# Decisions on facts

## What becomes of a fact

A fact about a registered entity is passed over, refused or applied.  The reasons for
refusing one are put here in terms of the entities and of the graph of their parents,
without the index and the search by which a registry finds them.  A refusal for a cycle is
exact: it is given just for the edges that would make the graph cyclic.
-/

namespace VocabTypes
namespace Registry

open Relation

/-- The entity at a position is known by an IRI. -/
def KnownAt (r : Registry) (href : String) (id : EntityId) : Prop :=
  ∃ e, r.entity? id = some e ∧ e.href = href

/-- Why a statement about the entity `e` at position `id` is refused. -/
inductive Refuses (r : Registry) (id : EntityId) (e : Entity) : Statement → Rejection → Prop where
  | parent {target : Identifier} (unknown : ∀ above, ¬ r.KnownAt target.href above) :
      Refuses r id e (.subclassOf target) (.unresolvedParent e.href target.href)
  | supersession {target : Identifier} (unknown : ∀ other, ¬ r.KnownAt target.href other) :
      Refuses r id e (.supersededBy target) (.unresolvedSupersession e.href target.href)
  | cycle {target : Identifier} {above : EntityId} (known : r.KnownAt target.href above)
      (back : ReflTransGen r.IsParent above id) :
      Refuses r id e (.subclassOf target) (.inheritanceCycle e.href target.href)

/-!
# Unknown terms and cycles

The index decides whether a term is known, and the search from a parent decides whether
the parent leads back.
-/

theorem Indexed.find?_eq_none_iff {r : Registry} (h : r.Indexed) {href : String} :
    r.find? href = none ↔ ∀ id, ¬ r.KnownAt href id := by
  rw [Option.eq_none_iff_forall_ne_some]
  exact forall_congr' fun id => not_congr (h href id)

theorem Indexed.knownAt_unique {r : Registry} (h : r.Indexed) {href : String}
    {id other : EntityId} (hid : r.KnownAt href id) (hother : r.KnownAt href other) :
    other = id := by
  have hfound := (h href id).mpr hid
  rw [(h href other).mpr hother] at hfound
  exact Option.some.inj hfound

section

variable {r : Registry} (h : r.Indexed) {id : EntityId} {e : Entity}
  (he : r.entity? id = some e)

include h he

theorem Indexed.closesCycle_iff {parent : EntityId} :
    r.closesCycle e.href parent = true ↔ ReflTransGen r.IsParent parent id := by
  have hself : r.find? e.href = some id := (h e.href id).mpr ⟨e, he, rfl⟩
  rw [closesCycle, hself, Option.any_some, subsumes_iff]

/-- A statement is refused for the reasons given, and for no other. -/
theorem Indexed.changeOf_eq_error_iff {statement : Statement} {cause : Rejection} :
    r.changeOf e.href statement = .error cause ↔ r.Refuses id e statement cause := by
  cases statement with
  | comment text =>
      constructor
      · intro hcause
        cases hcause
      · intro hrefuses
        cases hrefuses
  | subclassOf target =>
      rw [changeOf]
      cases hfound : r.find? target.href with
      | none =>
          have hunknown := h.find?_eq_none_iff.mp hfound
          constructor
          · intro hcause
            cases hcause
            exact Refuses.parent hunknown
          · intro hrefuses
            cases hrefuses with
            | parent _ => rfl
            | cycle hknown _ => exact absurd hknown (hunknown _)
      | some above =>
          have hknown : r.KnownAt target.href above := (h target.href above).mp hfound
          have hback : r.closesCycle e.href above = true ↔ ReflTransGen r.IsParent above id :=
            h.closesCycle_iff he
          cases hcycle : r.closesCycle e.href above with
          | true =>
              constructor
              · intro hcause
                simp only [hcycle, if_true] at hcause
                cases hcause
                exact Refuses.cycle hknown (hback.mp hcycle)
              · intro hrefuses
                cases hrefuses with
                | parent hunknown => exact absurd hknown (hunknown above)
                | cycle _ _ => simp [hcycle]
          | false =>
              constructor
              · intro hcause
                simp [hcycle] at hcause
              · intro hrefuses
                cases hrefuses with
                | parent hunknown => exact absurd hknown (hunknown above)
                | cycle hother hpath =>
                    rw [h.knownAt_unique hknown hother, ← hback, hcycle] at hpath
                    cases hpath
  | supersededBy target =>
      rw [changeOf]
      cases hfound : r.find? target.href with
      | none =>
          have hunknown := h.find?_eq_none_iff.mp hfound
          constructor
          · intro hcause
            cases hcause
            exact Refuses.supersession hunknown
          · intro hrefuses
            cases hrefuses
            rfl
      | some other =>
          constructor
          · intro hcause
            cases hcause
          · intro hrefuses
            cases hrefuses with
            | supersession hunknown =>
                exact absurd ((h target.href other).mp hfound) (hunknown other)

end

/-!
# The graph with one more edge
-/

theorem isParent_link_iff {r : Registry} {child parent : EntityId} {e : Entity}
    (he : r.entity? child = some e) {x y : EntityId} :
    (r.link child parent).IsParent x y ↔ r.IsParent x y ∨ (x = child ∧ y = parent) := by
  constructor
  · exact isParent_link he x y
  · intro hedge
    rw [IsParent, parentsOf_link he]
    rcases hedge with hold | ⟨rfl, rfl⟩
    · split
      · exact List.mem_append_left [parent] hold
      · exact hold
    · rw [if_pos rfl]
      exact List.mem_append_right _ (List.mem_singleton_self y)

/-- A new edge keeps the graph free of cycles just if its parent does not lead back. -/
theorem WellFormed.link_acyclic_iff {r : Registry} (h : r.WellFormed) {child parent : EntityId}
    {e : Entity} (he : r.entity? child = some e) :
    (r.link child parent).Acyclic ↔ ¬ ReflTransGen r.IsParent parent child := by
  constructor
  · intro hacyclic hback
    have hnew : (r.link child parent).IsParent child parent :=
      (isParent_link_iff he).mpr (Or.inr ⟨rfl, rfl⟩)
    have hkept : r.IsParent ≤ (r.link child parent).IsParent :=
      fun _ _ hold => (isParent_link_iff he).mpr (Or.inl hold)
    exact hacyclic child (TransGen.head' hnew (ReflTransGen.mono hkept _ _ hback))
  · intro hopen id
    exact not_transGen_of_added_edge (isParent_link he) h.acyclic hopen id

/-!
# The call
-/

theorem perform_assert {r : Registry} {id : EntityId} {e : Entity}
    (he : r.entity? id = some e) (fact : Fact) :
    r.perform (.assert id fact) =
      match r.change? e.href fact with
      | .error cause => (r, .refused cause)
      | .ok none => (r, .used false)
      | .ok (some change) => (r.apply id e change, .used true) := by
  rw [perform, assert, he]
  cases hchange : r.change? e.href fact with
  | error cause => simp [hchange]
  | ok change =>
      cases change with
      | none => simp [hchange]
      | some change => simp [hchange]

/-- What is answered when it is known whether a fact makes for a change. -/
def answerTo : Except Rejection (Option Change) → Answer
  | .error cause => .refused cause
  | .ok change => .used change.isSome

theorem answerTo_eq_refused_iff {found : Except Rejection (Option Change)} {cause : Rejection} :
    answerTo found = .refused cause ↔ found = .error cause := by
  cases found <;> simp [answerTo]

theorem answerTo_eq_unused_iff {found : Except Rejection (Option Change)} :
    answerTo found = .used false ↔ found = .ok none := by
  cases found <;> simp [answerTo]

theorem answerTo_eq_used_iff {found : Except Rejection (Option Change)} :
    answerTo found = .used true ↔ ∃ change, found = .ok (some change) := by
  cases found <;> simp [answerTo, Option.isSome_iff_exists]

theorem answer_assert {r : Registry} {id : EntityId} {e : Entity}
    (he : r.entity? id = some e) (fact : Fact) :
    (r.perform (.assert id fact)).2 = answerTo (r.change? e.href fact) := by
  rw [perform_assert he]
  cases r.change? e.href fact with
  | error cause => rfl
  | ok change => cases change <;> rfl

theorem perform_verdict (r : Registry) (href : String) (fact : Fact) :
    r.perform (.verdict href fact) = (r, answerTo (r.change? href fact)) := by
  rw [perform, verdict]
  cases r.change? href fact with
  | error cause => rfl
  | ok change => rfl

theorem change?_eq_error_iff {r : Registry} {href : String} {fact : Fact} {cause : Rejection} :
    r.change? href fact = .error cause ↔
      ∃ statement, fact.statement? = some statement ∧ r.changeOf href statement = .error cause := by
  unfold change?
  cases fact.statement? with
  | none => simp
  | some statement =>
      cases hchange : r.changeOf href statement with
      | error found => simp [hchange]
      | ok change => simp [hchange]

/-- Every change leaves its mark on the registry, also a comment that is given again. -/
theorem apply_ne {r : Registry} {id : EntityId} {e : Entity} (he : r.entity? id = some e)
    (change : Change) : r.apply id e change ≠ r := by
  intro hsame
  cases change with
  | comment text =>
      cases hcomment : e.comment with
      | none =>
          have hafter : (r.apply id e (.comment text)).entity? id =
              some { e with comment := some text } := by
            simp [apply, hcomment, setComment, entity?_modify, he]
          rw [hsame, he, Option.some.injEq] at hafter
          rw [hafter] at hcomment
          cases hcomment
      | some old =>
          have hafter : (r.apply id e (.comment text)).diagnostics =
              r.diagnostics ++ [commentReplaced e] := by
            simp [apply, hcomment, record, setComment, modify]
          rw [hsame] at hafter
          simp at hafter
  | parent parent =>
      have hafter : (r.link id parent).parentsOf id = r.parentsOf id ++ [parent] := by
        rw [parentsOf_link he id, if_pos rfl]
      rw [apply] at hsame
      rw [hsame] at hafter
      simp at hafter
  | replacement target =>
      have hafter : (r.apply id e (.replacement target)).entity? id =
          some { e with replacements := e.replacements ++ [target] } := by
        simp [apply, addReplacement, entity?_modify, he]
      rw [hsame, he, Option.some.injEq] at hafter
      have hreplacements := congrArg Entity.replacements hafter
      simp at hreplacements

section

variable {r : Registry} {id : EntityId} {e : Entity} (he : r.entity? id = some e) {fact : Fact}

include he

theorem passedOver_iff :
    (r.perform (.assert id fact)).2 = .used false ↔
      ∀ statement : Statement, fact ≠ statement.toFact := by
  rw [answer_assert he, answerTo_eq_unused_iff, change?_eq_ok_none_iff,
    Option.eq_none_iff_forall_ne_some]
  exact forall_congr' fun statement => not_congr Fact.statement?_eq_some_iff

theorem refused_iff (h : r.Indexed) {cause : Rejection} :
    (r.perform (.assert id fact)).2 = .refused cause ↔
      ∃ statement : Statement, fact = statement.toFact ∧ r.Refuses id e statement cause := by
  rw [answer_assert he, answerTo_eq_refused_iff, change?_eq_error_iff]
  simp only [Fact.statement?_eq_some_iff, h.changeOf_eq_error_iff he]

theorem applied_iff (h : r.Indexed) :
    (r.perform (.assert id fact)).2 = .used true ↔
      ∃ statement : Statement, fact = statement.toFact ∧
        ∀ cause, ¬ r.Refuses id e statement cause := by
  have hchange : ∀ statement, (∃ change, r.Entails e.href statement change) ↔
      ∀ cause, ¬ r.Refuses id e statement cause := by
    intro statement
    simp only [← changeOf_eq_ok_iff, ← h.changeOf_eq_error_iff he]
    cases r.changeOf e.href statement <;> simp
  rw [answer_assert he, answerTo_eq_used_iff]
  simp only [change?_eq_ok_some_iff, Fact.statement?_eq_some_iff, ← hchange]
  grind

end

/--
What becomes of a fact about a registered entity.  It is passed over just if it makes none
of the three statements, it is refused just for the reasons given, and it is applied
otherwise.  The parent that a statement names is refused for a cycle just if its edge would
make the graph of parents cyclic.  Only a fact that is applied changes the registry, and a
verdict gives the same answer without changing it.
-/
theorem fact_decided {r : Registry} (hr : r.Reachable) {id : EntityId} {e : Entity}
    (he : r.entity? id = some e) (fact : Fact) :
    ((r.perform (.assert id fact)).2 = .used false ↔
      ∀ statement : Statement, fact ≠ statement.toFact) ∧
    (∀ cause, (r.perform (.assert id fact)).2 = .refused cause ↔
      ∃ statement : Statement, fact = statement.toFact ∧ r.Refuses id e statement cause) ∧
    ((r.perform (.assert id fact)).2 = .used true ↔
      ∃ statement : Statement, fact = statement.toFact ∧
        ∀ cause, ¬ r.Refuses id e statement cause) ∧
    (∀ target above, r.KnownAt target.href above →
      (r.Refuses id e (.subclassOf target) (.inheritanceCycle e.href target.href) ↔
        ¬ (r.link id above).Acyclic)) ∧
    ((r.perform (.assert id fact)).1 = r ↔ (r.perform (.assert id fact)).2 ≠ .used true) ∧
    r.perform (.verdict e.href fact) = (r, (r.perform (.assert id fact)).2) := by
  have h := hr.wellFormed
  refine ⟨passedOver_iff he, fun _ => refused_iff he h.indexed, applied_iff he h.indexed,
    ?_, ?_, ?_⟩
  · intro target above hknown
    rw [h.link_acyclic_iff he, Classical.not_not]
    constructor
    · intro hrefuses
      cases hrefuses with
      | cycle hother hback =>
          rw [h.indexed.knownAt_unique hknown hother] at hback
          exact hback
    · intro hback
      exact Refuses.cycle hknown hback
  · rw [perform_assert he]
    cases r.change? e.href fact with
    | error cause => simp
    | ok change =>
        cases change with
        | none => simp
        | some change => simp [apply_ne he change]
  · rw [perform_verdict, answer_assert he]

/-- A book that is below a thing in two ways. -/
def ladder : Registry :=
  empty.run
    [.insertClass ⟨"Thing", "s:Thing"⟩ false,
      .insertClass ⟨"Work", "s:Work"⟩ false,
      .insertClass ⟨"Book", "s:Book"⟩ false,
      .assert 1 (Statement.subclassOf ⟨"Thing", "s:Thing"⟩).toFact,
      .assert 2 (Statement.subclassOf ⟨"Work", "s:Work"⟩).toFact,
      .assert 2 (Statement.subclassOf ⟨"Thing", "s:Thing"⟩).toFact]

def isBook : Fact :=
  (Statement.subclassOf ⟨"Book", "s:Book"⟩).toFact

theorem thing_below_book_refused :
    ladder.Reachable ∧ ladder.KnownAt "s:Thing" 0 ∧ ladder.KnownAt "s:Book" 2 ∧
      ladder.perform (.assert 0 isBook) =
        (ladder, .refused (.inheritanceCycle "s:Thing" "s:Book")) ∧
      ladder.perform (.verdict "s:Thing" isBook) =
        (ladder, .refused (.inheritanceCycle "s:Thing" "s:Book")) ∧
      ¬ (ladder.link 0 2).Acyclic := by
  have hr : ladder.Reachable := ⟨_, rfl⟩
  have hthing : (ladder.entity? 0).map Entity.href = some "s:Thing" := by
    cbv
  have hbook : (ladder.entity? 2).map Entity.href = some "s:Book" := by
    cbv
  have hparents : ladder.parentsOf 1 = [0] ∧ ladder.parentsOf 2 = [1, 0] := by
    cbv
  have hknown : ladder.KnownAt "s:Book" 2 := Option.map_eq_some_iff.mp hbook
  have hback : ReflTransGen ladder.IsParent 2 0 := by
    have hbelow : ladder.IsParent 2 1 := by
      simp [IsParent, hparents.right]
    have hlast : ladder.IsParent 1 0 := by
      simp [IsParent, hparents.left]
    exact ReflTransGen.head hbelow (ReflTransGen.single hlast)
  rcases Option.map_eq_some_iff.mp hthing with ⟨thing, he, hhref⟩
  rcases fact_decided hr he isBook with ⟨_, hrefused, _, hcycle, hunchanged, hverdict⟩
  have hrefuses : ladder.Refuses 0 thing (.subclassOf ⟨"Book", "s:Book"⟩)
      (.inheritanceCycle thing.href "s:Book") := Refuses.cycle hknown hback
  have hanswer := (hrefused _).mpr ⟨_, rfl, hrefuses⟩
  have hsame := hunchanged.mpr (by simp [hanswer])
  have hcall : ladder.perform (.assert 0 isBook) =
      (ladder, .refused (.inheritanceCycle thing.href "s:Book")) := Prod.ext hsame hanswer
  rw [hanswer] at hverdict
  rw [hhref] at hcall hverdict
  exact ⟨hr, ⟨thing, he, hhref⟩, hknown, hcall, hverdict, (hcycle _ _ hknown).mp hrefuses⟩

end Registry
end VocabTypes
