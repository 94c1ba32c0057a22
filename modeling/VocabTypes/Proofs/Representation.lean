import VocabTypes.Proofs.CheckedListing

/-!
# Representation

## What an id stands for

An id that has been issued stands for one term for good: its identifier, its kind and
whether it allows a bare string are fixed when it is registered.  The union of data
types is the only one of its kind and is registered after its members.  With the index
and the links of a well-formed registry this is all that reading a registry relies on.
-/

namespace VocabTypes

/-- Two entities that agree in what is fixed by registering a term. -/
structure Entity.SameTerm (e f : Entity) : Prop where
  subject : f.subject = e.subject
  kind : f.kind = e.kind
  allowString : f.allowString = e.allowString

theorem Entity.SameTerm.refl (e : Entity) : e.SameTerm e :=
  ⟨rfl, rfl, rfl⟩

theorem Entity.SameTerm.trans {e f g : Entity} (h : e.SameTerm f) (hlater : f.SameTerm g) :
    e.SameTerm g where
  subject := hlater.subject.trans h.subject
  kind := hlater.kind.trans h.kind
  allowString := hlater.allowString.trans h.allowString

theorem Entity.sameTerm_addParent (parent : EntityId) (e : Entity) :
    Entity.SameTerm e { e with parents := e.parents ++ [parent] } :=
  ⟨rfl, rfl, rfl⟩

namespace Registry

open Relation

/-!
# Terms are kept
-/

/-- Every id of the first registry stands for the same term in the second one. -/
def Keeps (r s : Registry) : Prop :=
  ∀ id e, r.entity? id = some e → ∃ f, s.entity? id = some f ∧ e.SameTerm f

theorem Keeps.refl (r : Registry) : Keeps r r := by
  intro id e he
  exact ⟨e, he, Entity.SameTerm.refl e⟩

theorem Keeps.trans {r s t : Registry} (h : Keeps r s) (hlater : Keeps s t) : Keeps r t := by
  intro id e he
  rcases h id e he with ⟨f, hf, hsame⟩
  rcases hlater id f hf with ⟨g, hg, hlast⟩
  exact ⟨g, hg, hsame.trans hlast⟩

theorem keeps_append (r : Registry) (new : Entity) : Keeps r (r.append new) := by
  intro id e he
  refine ⟨e, ?_, Entity.SameTerm.refl e⟩
  rw [entity?_append, if_neg (ne_size_of_entity? he)]
  exact he

theorem keeps_modify {r : Registry} {id : EntityId} {f : Entity → Entity}
    (hf : ∀ e : Entity, e.SameTerm (f e)) : Keeps r (r.modify id f) := by
  intro other e he
  rw [entity?_modify, he]
  by_cases hsame : id = other
  · rw [if_pos hsame]
    exact ⟨f e, rfl, hf e⟩
  · rw [if_neg hsame]
    exact ⟨e, rfl, Entity.SameTerm.refl e⟩

theorem Step.keeps {r s : Registry} (h : Step r s) : Keeps r s := by
  cases h with
  | insert _ _ => exact r.keeps_append _
  | comment _ => exact keeps_modify fun _ => ⟨rfl, rfl, rfl⟩
  | link _ _ _ =>
      exact (keeps_modify (Entity.sameTerm_addParent _)).trans
        (keeps_modify fun _ => ⟨rfl, rfl, rfl⟩)
  | replacement _ _ => exact keeps_modify fun _ => ⟨rfl, rfl, rfl⟩
  | members _ => exact keeps_modify fun _ => ⟨rfl, rfl, rfl⟩
  | record => exact Keeps.refl r

theorem Steps.keeps {r s : Registry} (h : Steps r s) : Keeps r s := by
  induction h with
  | refl => exact Keeps.refl r
  | tail _ hstep ih => exact ih.trans hstep.keeps

/-!
# The union of data types
-/

/-- The union of data types is the only one, and its members are scalars registered before it. -/
structure UnionSound (r : Registry) : Prop where
  only : ∀ id other e f, r.entity? id = some e → r.entity? other = some f →
    e.kind.isDataTypeUnion = true → f.kind.isDataTypeUnion = true → other = id
  members : ∀ id e, r.entity? id = some e → ∀ member ∈ e.kind.members,
    member < id ∧ r.isScalar member = true

theorem isScalar_iff {r : Registry} {id : EntityId} :
    r.isScalar id = true ↔ ∃ e, r.entity? id = some e ∧ e.kind.isScalar = true := by
  rw [isScalar, Option.any_eq_true]

theorem Keeps.isScalar {r s : Registry} (h : Keeps r s) {id : EntityId}
    (hscalar : r.isScalar id = true) : s.isScalar id = true := by
  rcases isScalar_iff.mp hscalar with ⟨e, he, hkind⟩
  rcases h id e he with ⟨f, hf, hsame⟩
  rw [← hsame.kind] at hkind
  exact isScalar_iff.mpr ⟨f, hf, hkind⟩

theorem unionSound_empty : empty.UnionSound where
  only := by
    intro id other e f he
    cases he
  members := by
    intro id e he
    cases he

theorem not_isDataTypeUnion_of_none {r : Registry} (h : r.dataTypeUnion? = none) {id : EntityId}
    {e : Entity} (he : r.entity? id = some e) : ¬ e.kind.isDataTypeUnion = true :=
  List.find?_eq_none.mp h e (mem_entities_iff.mpr ⟨id, he⟩)

theorem AdmitsKind.none_of_union {r : Registry} {kind : Kind} (h : r.AdmitsKind kind)
    (hunion : kind.isDataTypeUnion = true) : r.dataTypeUnion? = none := by
  cases kind with
  | dataTypeUnion members doc => exact (h members doc rfl).left
  | rdfsClass => cases hunion
  | builtin typeName doc => cases hunion
  | booleanEnum trueUrl falseUrl doc => cases hunion

theorem AdmitsKind.members_isScalar {r : Registry} {kind : Kind} (h : r.AdmitsKind kind) :
    ∀ member ∈ kind.members, r.isScalar member = true := by
  intro member hmember
  cases kind with
  | dataTypeUnion members doc => exact (h members doc rfl).right member hmember
  | rdfsClass => cases hmember
  | builtin typeName doc => cases hmember
  | booleanEnum trueUrl falseUrl doc => cases hmember

theorem UnionSound.append {r : Registry} (h : r.UnionSound) {subject : Identifier} {kind : Kind}
    {allowString : Bool} (hkind : r.AdmitsKind kind) :
    (r.append (.bare subject kind allowString)).UnionSound where
  only := by
    intro id other e f he hf hunion hother
    rw [entity?_append] at he hf
    by_cases hlast : id = r.size
    · rw [if_pos hlast] at he
      cases he
      by_cases hsame : other = r.size
      · rw [hlast, hsame]
      · rw [if_neg hsame] at hf
        exact absurd hother (not_isDataTypeUnion_of_none (hkind.none_of_union hunion) hf)
    · rw [if_neg hlast] at he
      by_cases hsame : other = r.size
      · rw [if_pos hsame] at hf
        cases hf
        exact absurd hunion (not_isDataTypeUnion_of_none (hkind.none_of_union hother) he)
      · rw [if_neg hsame] at hf
        exact h.only id other e f he hf hunion hother
  members := by
    intro id e he member hmember
    have hkeeps := r.keeps_append (.bare subject kind allowString)
    rw [entity?_append] at he
    by_cases hlast : id = r.size
    · rw [if_pos hlast] at he
      cases he
      rw [hlast]
      exact ⟨hkind.members_lt member hmember,
        hkeeps.isScalar (hkind.members_isScalar member hmember)⟩
    · rw [if_neg hlast] at he
      rcases h.members id e he member hmember with ⟨hbefore, hscalar⟩
      exact ⟨hbefore, hkeeps.isScalar hscalar⟩

theorem UnionSound.modify {r : Registry} (h : r.UnionSound) {id : EntityId}
    {f : Entity → Entity} (hf : ∀ e : Entity, e.SameTerm (f e)) : (r.modify id f).UnionSound := by
  have hold : ∀ other new, (r.modify id f).entity? other = some new →
      ∃ old, r.entity? other = some old ∧ new.kind = old.kind := by
    intro other new hnew
    rw [entity?_modify] at hnew
    by_cases hsame : id = other
    · rw [if_pos hsame] at hnew
      rcases Option.map_eq_some_iff.mp hnew with ⟨old, hentity, rfl⟩
      exact ⟨old, hentity, (hf old).kind⟩
    · rw [if_neg hsame] at hnew
      exact ⟨new, hnew, rfl⟩
  constructor
  · intro first second e g he hg hunion hother
    rcases hold first e he with ⟨d, hd, hkind⟩
    rcases hold second g hg with ⟨k, hk, hkindOther⟩
    rw [hkind] at hunion
    rw [hkindOther] at hother
    exact h.only first second d k hd hk hunion hother
  · intro other e he member hmember
    rcases hold other e he with ⟨old, hentity, hkind⟩
    rw [hkind] at hmember
    rcases h.members other old hentity member hmember with ⟨hbefore, hscalar⟩
    exact ⟨hbefore, (keeps_modify hf).isScalar hscalar⟩

theorem UnionSound.step {r s : Registry} (h : r.UnionSound) (hstep : Step r s) :
    s.UnionSound := by
  cases hstep with
  | insert _ hkind => exact h.append hkind
  | comment _ => exact h.modify fun _ => ⟨rfl, rfl, rfl⟩
  | link _ _ _ =>
      exact (h.modify (Entity.sameTerm_addParent _)).modify fun _ => ⟨rfl, rfl, rfl⟩
  | replacement _ _ => exact h.modify fun _ => ⟨rfl, rfl, rfl⟩
  | members _ => exact h.modify fun _ => ⟨rfl, rfl, rfl⟩
  | record => exact ⟨h.only, h.members⟩

theorem Reachable.unionSound {r : Registry} (hr : r.Reachable) : r.UnionSound :=
  hr.induction unionSound_empty fun _ _ h hstep => h.step hstep

/-!
# The index
-/

theorem Indexed.find?_eq_some_iff {r : Registry} (h : r.Indexed) (href : String)
    (id : EntityId) :
    r.find? href = some id ↔ id < r.size ∧ (r.entity? id).map Entity.href = some href := by
  rw [h href id, Option.map_eq_some_iff]
  constructor
  · intro hknown
    rcases hknown with ⟨e, he, hhref⟩
    exact ⟨(r.lt_size_iff id).mpr ⟨e, he⟩, e, he, hhref⟩
  · intro hknown
    exact hknown.right

theorem compareIds?_isSome {r : Registry} {a b : EntityId} (ha : a < r.size) (hb : b < r.size) :
    (r.compareIds? a b).isSome = true := by
  rcases (r.lt_size_iff a).mp ha with ⟨e, he⟩
  rcases (r.lt_size_iff b).mp hb with ⟨f, hf⟩
  rw [compareIds?, he, hf]
  rfl

/--
What reading a reachable registry relies on.  The index finds an id exactly where an
entity has the IRI, and no two entities share one.  Links lead to issued ids only, so no
lookup fails while declarations are generated or entities are compared.  There is at most
one union of data types, over scalars registered before it.  An issued id stands for the
same term whatever is called later.
-/
theorem representation_invariant {r : Registry} (hr : r.Reachable) :
    ((∀ href id, r.find? href = some id ↔
        id < r.size ∧ (r.entity? id).map Entity.href = some href) ∧
      (r.entities.map Entity.href).Nodup) ∧
    ((∀ id e, r.entity? id = some e → ∀ link,
        link ∈ e.parents ∨ link ∈ e.children ∨ link ∈ e.replacements ∨ link ∈ e.kind.members →
          link < r.size) ∧
      (∀ o, r.checkedListing o = some (r.listing o) ∧
        ∀ id e, r.entity? id = some e → r.ChecksOut o id e) ∧
      (∀ id, id ∈ r.idsInOrder ↔ id < r.size) ∧
      ∀ a b, a < r.size → b < r.size → (r.compareIds? a b).isSome = true) ∧
    (∀ id e members doc, r.entity? id = some e → e.kind = .dataTypeUnion members doc →
      (∀ other f, r.entity? other = some f → f.kind.isDataTypeUnion = true → other = id) ∧
        ∀ member ∈ members, member < id ∧
          ∃ f, r.entity? member = some f ∧ f.kind.isScalar = true) ∧
    ∀ more id e, r.entity? id = some e →
      ∃ f, (r.run more).entity? id = some f ∧ f.subject = e.subject ∧ f.kind = e.kind ∧
        f.allowString = e.allowString := by
  have h := hr.wellFormed
  refine ⟨⟨h.indexed.find?_eq_some_iff, h.indexed.nodup_hrefs⟩, ⟨?_, ?_, ?_, ?_⟩, ?_, ?_⟩
  · intro id e he link hlink
    apply h.issued id e he
    simpa [Entity.links, or_assoc] using hlink
  · intro o
    exact ⟨h.checkedListing_eq o, fun _ _ he => h.checksOut o he⟩
  · intro id
    exact mem_idsInOrder_iff
  · intro a b ha hb
    exact compareIds?_isSome ha hb
  · intro id e members doc he hkind
    have hunion : e.kind.isDataTypeUnion = true := by
      rw [hkind]
      rfl
    constructor
    · intro other f hf hother
      exact hr.unionSound.only id other e f he hf hunion hother
    · intro member hmember
      have hmem : member ∈ e.kind.members := by
        rw [hkind]
        exact hmember
      rcases hr.unionSound.members id e he member hmem with ⟨hbefore, hscalar⟩
      exact ⟨hbefore, isScalar_iff.mp hscalar⟩
  · intro more id e he
    rcases (r.run_steps more).keeps id e he with ⟨f, hf, hsame⟩
    exact ⟨f, hf, hsame.subject, hsame.kind, hsame.allowString⟩

/-- Calls that register a union over both scalar forms, and a class that another one replaces. -/
def catalogueCalls : List Call :=
  [.insertBuiltin "s/Label" "string" "",
    .insertBooleanEnum "s/Flag" "s/Yes" "s/No" "",
    .insertDataTypeUnion "s/Value" [0, 1] "",
    .insertClass ⟨"Work", "s:Work"⟩ false,
    .insertClass ⟨"Book", "s:Book"⟩ true,
    .assert 4 (Statement.subclassOf ⟨"Label", "s/Label"⟩).toFact,
    .assert 4 (Statement.supersededBy ⟨"Work", "s:Work"⟩).toFact]

def catalogue : Registry :=
  empty.run catalogueCalls

theorem representation_of_catalogue :
    catalogue.Reachable ∧ catalogue.find? "s:Book" = some 4 ∧
      (∀ link ∈ [0, 3], link < catalogue.size) ∧
      catalogue.checkedListing .standard = some (catalogue.listing .standard) ∧
      (∀ member ∈ [0, 1], member < 2 ∧
        ∃ f, catalogue.entity? member = some f ∧ f.kind.isScalar = true) ∧
      ∀ more, ∃ f, (catalogue.run more).entity? 4 = some f ∧
        f.subject = ⟨"Book", "s:Book"⟩ ∧ f.kind = .rdfsClass ∧ f.allowString = true := by
  have hr : catalogue.Reachable := ⟨catalogueCalls, rfl⟩
  have hvalue : (catalogue.entity? 2).map Entity.kind = some (.dataTypeUnion [0, 1] "") := by
    cbv
  have hbook : catalogue.entity? 4 =
      some { subject := ⟨"Book", "s:Book"⟩, kind := .rdfsClass, allowString := true,
             comment := none, parents := [0], children := [], replacements := [3],
             properties := [], enumValues := [] } := by
    cbv
  have hsize : 4 < catalogue.size := (catalogue.lt_size_iff 4).mpr ⟨_, hbook⟩
  rcases Option.map_eq_some_iff.mp hvalue with ⟨value, hvalue, hkind⟩
  rcases representation_invariant hr with
    ⟨⟨hindex, _⟩, ⟨hlinks, hlistings, _, _⟩, hunion, hkept⟩
  refine ⟨hr, ?_, ?_, (hlistings .standard).left, ?_, fun more => hkept more 4 _ hbook⟩
  · rw [hindex, hbook]
    exact ⟨hsize, rfl⟩
  · intro link hlink
    apply hlinks 4 _ hbook
    rcases List.mem_cons.mp hlink with rfl | hlast
    · exact Or.inl (List.mem_singleton_self _)
    · rw [List.mem_singleton.mp hlast]
      exact Or.inr (Or.inr (Or.inl (List.mem_singleton_self _)))
  · exact (hunion 2 value _ _ hvalue hkind).right

end Registry
end VocabTypes
