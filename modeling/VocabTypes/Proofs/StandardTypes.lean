import VocabTypes.Proofs.Decision
import VocabTypes.Proofs.LocalNames
import VocabTypes.Proofs.Representation

/-!
# Registering the standard data types

## One after the other, up to the first that is refused

The standard data types are registered in one go, but each by itself.  A registry may hold
any of their IRIs already, for an entity of any form, and it may have a union of data types
under any IRI.  Registration then ends at the first of the standard entities that is blocked,
and the ones before it stay.
-/

namespace VocabTypes

theorem Kind.isDataTypeUnion_of_isScalar {kind : Kind} (h : kind.isScalar = true) :
    kind.isDataTypeUnion = false := by
  cases kind with
  | rdfsClass => cases h
  | builtin typeName doc => rfl
  | booleanEnum trueUrl falseUrl doc => rfl
  | dataTypeUnion members doc => cases h

namespace Registry

/-!
# More entities at the end
-/

/-- The registry with some entities registered after its own. -/
def extend (r : Registry) (entities : List Entity) : Registry :=
  entities.foldl append r

section

variable (r : Registry) (more : List Entity)

@[simp] theorem extend_nil : r.extend [] = r :=
  rfl

@[simp] theorem extend_cons (e : Entity) : r.extend (e :: more) = (r.append e).extend more :=
  rfl

theorem extend_concat (e : Entity) : r.extend (more ++ [e]) = (r.extend more).append e := by
  rw [extend, List.foldl_append]
  rfl

@[simp] theorem entities_extend : (r.extend more).entities = r.entities ++ more := by
  induction more generalizing r with
  | nil => exact (List.append_nil r.entities).symm
  | cons e more ih => rw [extend_cons, ih, append, List.append_assoc, List.singleton_append]

@[simp] theorem diagnostics_extend : (r.extend more).diagnostics = r.diagnostics := by
  induction more generalizing r with
  | nil => rfl
  | cons e more ih => rw [extend_cons, ih, append]

@[simp] theorem size_extend : (r.extend more).size = r.size + more.length := by
  rw [size, entities_extend, List.length_append, size]

end

theorem entity?_extend {r : Registry} {id : EntityId} {e : Entity} (he : r.entity? id = some e)
    (more : List Entity) : (r.extend more).entity? id = some e := by
  have hlt := (r.lt_size_iff id).mpr ⟨e, he⟩
  rw [entity?, entities_extend, List.getElem?_append_left hlt]
  exact he

theorem find?_extend {r : Registry} {href : String} {more : List Entity}
    (hother : ∀ e ∈ more, href ≠ e.href) : (r.extend more).find? href = r.find? href := by
  induction more generalizing r with
  | nil => rfl
  | cons e more ih =>
      rcases List.forall_mem_cons.mp hother with ⟨hne, hrest⟩
      rw [extend_cons, ih hrest, find?_append, if_neg hne]

theorem dataTypeUnion?_extend {r : Registry} {more : List Entity}
    (hmore : ∀ e ∈ more, e.kind.isDataTypeUnion = false) :
    (r.extend more).dataTypeUnion? = r.dataTypeUnion? := by
  have hnone : more.find? (fun e => e.kind.isDataTypeUnion) = none := by
    simpa [List.find?_eq_none] using hmore
  rw [dataTypeUnion?, entities_extend, List.find?_append, hnone, Option.or_none, dataTypeUnion?]

/-- The entities that have been registered last are found behind the earlier ones. -/
theorem isScalar_extend {r : Registry} {more : List Entity}
    (hmore : ∀ e ∈ more, e.kind.isScalar = true) :
    ∀ id ∈ List.range' r.size more.length, (r.extend more).isScalar id = true := by
  intro id hid
  rcases List.mem_range'_1.mp hid with ⟨hfirst, hlast⟩
  have hlt : id - r.size < more.length := by omega
  rw [isScalar_iff]
  refine ⟨more[id - r.size], ?_, hmore _ (List.getElem_mem hlt)⟩
  rw [entity?, entities_extend, List.getElem?_append_right hfirst]
  exact List.getElem?_eq_getElem hlt

/-!
# The standard entities
-/

/-- The entity that a standard scalar becomes. -/
def scalarEntity (scalar : String × Kind) : Entity :=
  .bare (.ofUrl (standardUrl scalar.1)) scalar.2 false

/-- The entity that the standard union becomes. -/
def unionEntity (members : List EntityId) : Entity :=
  .bare (.ofUrl (standardUrl standardUnion)) (.dataTypeUnion members standardUnionDoc) false

/-- The standard entities where `first` is the next free position: the union is over the others. -/
def standardEntities (first : EntityId) : List Entity :=
  standardScalars.map scalarEntity ++ [unionEntity (List.range' first standardScalars.length)]

theorem standardUrl_inj {name other : String} :
    standardUrl name = standardUrl other ↔ name = other := by
  simp only [standardUrl, ← String.toList_inj, String.toList_append, List.append_cancel_left_eq]

/-- A standard term is named by what follows the namespace. -/
theorem ofUrl_standardUrl {name : String} (h : LacksSeparators name) :
    Identifier.ofUrl (standardUrl name) = ⟨name, standardUrl name⟩ := by
  have hurl : standardUrl name = "https://schema.org" ++ "/" ++ name := rfl
  rw [Identifier.ofUrl, hurl, localName_after (by decide) h]

theorem standardUrl_apart {before : List (String × Kind)} {name : String}
    (h : name ∉ before.map Prod.fst) :
    ∀ e ∈ before.map scalarEntity, standardUrl name ≠ e.href := by
  intro e he hsame
  rcases List.mem_map.mp he with ⟨scalar, hscalar, rfl⟩
  apply h
  rw [standardUrl_inj.mp hsame]
  exact List.mem_map_of_mem hscalar

/-- The standard entities have different IRIs. -/
theorem nodup_standardNames : (standardScalars.map Prod.fst ++ [standardUnion]).Nodup := by
  decide

theorem isScalar_of_mem {e : Entity} (he : e ∈ standardScalars.map scalarEntity) :
    e.kind.isScalar = true := by
  revert e
  decide

/-!
# The scalars
-/

/-- What follows some scalars is registered as if they had been there before. -/
theorem insertScalars_append {r : Registry} {before : List (String × Kind)}
    (hdistinct : (before.map Prod.fst).Nodup)
    (hfree : ∀ scalar ∈ before, r.find? (standardUrl scalar.1) = none)
    (rest : List (String × Kind)) :
    r.insertScalars (before ++ rest) =
      match (r.extend (before.map scalarEntity)).insertScalars rest with
      | (after, .error cause) => (after, .error cause)
      | (after, .ok ids) => (after, .ok (List.range' r.size before.length ++ ids)) := by
  induction before generalizing r with
  | nil =>
      rw [List.map_nil, extend_nil, List.nil_append]
      rcases r.insertScalars rest with ⟨after, cause | ids⟩
      · rfl
      · rfl
  | cons scalar before ih =>
      rcases scalar with ⟨name, kind⟩
      rcases List.forall_mem_cons.mp hfree with ⟨hname, hbefore⟩
      rcases List.nodup_cons.mp hdistinct with ⟨hnew, hothers⟩
      have hinsert : r.insert (.ofUrl (standardUrl name)) kind false =
          .ok (r.size, r.append (scalarEntity (name, kind))) :=
        insert_eq_ok_iff.mpr ⟨hname, rfl, rfl⟩
      have hstill : ∀ scalar ∈ before,
          (r.append (scalarEntity (name, kind))).find? (standardUrl scalar.1) = none := by
        intro scalar hscalar
        rw [find?_append, if_neg]
        · exact hbefore scalar hscalar
        · intro hsame
          apply hnew
          rw [← standardUrl_inj.mp hsame]
          exact List.mem_map_of_mem hscalar
      rw [List.cons_append, insertScalars, hinsert, List.map_cons, extend_cons]
      simp only [ih hothers hstill]
      rcases ((r.append (scalarEntity (name, kind))).extend
        (before.map scalarEntity)).insertScalars rest with ⟨after, cause | ids⟩
      · rfl
      · simp [List.range'_succ]

theorem insertScalars_of_free {r : Registry} {scalars : List (String × Kind)}
    (hdistinct : (scalars.map Prod.fst).Nodup)
    (hfree : ∀ scalar ∈ scalars, r.find? (standardUrl scalar.1) = none) :
    r.insertScalars scalars =
      (r.extend (scalars.map scalarEntity), .ok (List.range' r.size scalars.length)) := by
  have hall := insertScalars_append hdistinct hfree []
  rw [List.append_nil] at hall
  rw [hall, insertScalars]
  simp only [List.append_nil]

theorem insertScalars_of_taken {r : Registry} {before rest : List (String × Kind)}
    {scalar : String × Kind} (hdistinct : ((before ++ scalar :: rest).map Prod.fst).Nodup)
    (hfree : ∀ earlier ∈ before, r.find? (standardUrl earlier.1) = none)
    (htaken : r.find? (standardUrl scalar.1) ≠ none) :
    r.insertScalars (before ++ scalar :: rest) =
      (r.extend (before.map scalarEntity), .error (.duplicateEntity (standardUrl scalar.1))) := by
  rw [List.map_append, List.map_cons] at hdistinct
  rcases List.nodup_append.mp hdistinct with ⟨hbefore, _, happart⟩
  have hnew : scalar.1 ∉ before.map Prod.fst := by
    intro hmem
    exact happart scalar.1 hmem scalar.1 List.mem_cons_self rfl
  rcases Option.ne_none_iff_exists'.mp htaken with ⟨id, hid⟩
  have hstill : (r.extend (before.map scalarEntity)).find? (standardUrl scalar.1) = some id := by
    rw [find?_extend (standardUrl_apart hnew), hid]
  have hrefused : (r.extend (before.map scalarEntity)).insert (.ofUrl (standardUrl scalar.1))
      scalar.2 false = .error (.duplicateEntity (standardUrl scalar.1)) := by
    have hhref : (Identifier.ofUrl (standardUrl scalar.1)).href = standardUrl scalar.1 := rfl
    rw [insert, hhref, hstill]
  rw [insertScalars_append hbefore hfree, insertScalars, hrefused]

/-!
# The union
-/

/-- With the scalars registered, the union is the last thing that can be refused. -/
theorem insertStandard_of_scalars_free {r : Registry}
    (hfree : ∀ scalar ∈ standardScalars, r.find? (standardUrl scalar.1) = none) :
    r.insertStandard =
      match r.dataTypeUnion?, r.find? (standardUrl standardUnion) with
      | some union, _ => (r.extend (standardScalars.map scalarEntity),
          .error (.duplicateDataTypeUnion (standardUrl standardUnion) union.href))
      | none, some _ => (r.extend (standardScalars.map scalarEntity),
          .error (.duplicateEntity (standardUrl standardUnion)))
      | none, none => (r.extend (standardEntities r.size), .ok (List.range' r.size 7)) := by
  rcases List.nodup_append.mp nodup_standardNames with ⟨hdistinct, _, happart⟩
  have hunion : standardUnion ∉ standardScalars.map Prod.fst := by
    intro hmem
    exact happart standardUnion hmem standardUnion (List.mem_singleton_self _) rfl
  have hscalars : ∀ e ∈ standardScalars.map scalarEntity, e.kind.isDataTypeUnion = false :=
    fun e he => Kind.isDataTypeUnion_of_isScalar (isScalar_of_mem he)
  have hmembers : (List.range' r.size standardScalars.length).find?
      (fun id => !(r.extend (standardScalars.map scalarEntity)).isScalar id) = none := by
    rw [List.find?_eq_none]
    intro id hid
    have hscalar := isScalar_extend (r := r) (fun e he => isScalar_of_mem he) id
      (by rwa [List.length_map])
    simp [hscalar]
  have hlookup : (r.extend (standardScalars.map scalarEntity)).find?
      (Identifier.ofUrl (standardUrl standardUnion)).href = r.find? (standardUrl standardUnion) :=
    find?_extend (standardUrl_apart hunion)
  have hids : List.range' r.size standardScalars.length ++ [r.size + standardScalars.length] =
      List.range' r.size 7 := rfl
  rw [insertStandard, insertScalars_of_free hdistinct hfree]
  simp only [insertDataTypeUnion, checkUnion, dataTypeUnion?_extend hscalars, hmembers, insert,
    hlookup, size_extend, List.length_map, standardEntities, extend_concat, unionEntity, ← hids]
  cases r.dataTypeUnion? with
  | some union => rfl
  | none =>
      cases r.find? (standardUrl standardUnion) with
      | some id => rfl
      | none => rfl

/-!
# What stops the registration
-/

/-- Nothing is known by an IRI. -/
def Free (r : Registry) (href : String) : Prop :=
  ∀ id, ¬ r.KnownAt href id

def LacksUnion (r : Registry) : Prop :=
  ∀ e ∈ r.entities, e.kind.isDataTypeUnion = false

/-- Why an entity cannot be registered: its IRI is taken, or it would be a second union. -/
inductive Blocks (r : Registry) (e : Entity) : Rejection → Prop where
  | taken (known : ¬ r.Free e.href) (only : e.kind.isDataTypeUnion = true → r.LacksUnion) :
      Blocks r e (.duplicateEntity e.href)
  | second {union : Entity} (registered : union ∈ r.entities)
      (isUnion : union.kind.isDataTypeUnion = true) (another : e.kind.isDataTypeUnion = true) :
      Blocks r e (.duplicateDataTypeUnion e.href union.href)

theorem lacksUnion_iff {r : Registry} : r.LacksUnion ↔ r.dataTypeUnion? = none := by
  simp [LacksUnion, dataTypeUnion?]

theorem UnionSound.dataTypeUnion?_eq {r : Registry} (h : r.UnionSound) {union : Entity}
    (hmem : union ∈ r.entities) (hunion : union.kind.isDataTypeUnion = true) :
    r.dataTypeUnion? = some union := by
  cases hfound : r.dataTypeUnion? with
  | none => exact absurd hunion (List.find?_eq_none.mp hfound union hmem)
  | some other =>
      rcases mem_entities_iff.mp hmem with ⟨id, hid⟩
      rcases mem_entities_iff.mp (List.mem_of_find?_eq_some hfound) with ⟨position, hposition⟩
      have hother : other.kind.isDataTypeUnion = true :=
        List.find?_some (p := fun e : Entity => e.kind.isDataTypeUnion) hfound
      rw [h.only id position union other hid hposition hunion hother, hid] at hposition
      exact hposition.symm

theorem Indexed.free_iff {r : Registry} (h : r.Indexed) {href : String} :
    r.Free href ↔ r.find? href = none :=
  h.find?_eq_none_iff.symm

theorem Indexed.scalars_free {r : Registry} (h : r.Indexed) {scalars : List (String × Kind)}
    (hfree : ∀ e ∈ scalars.map scalarEntity, r.Free e.href) :
    ∀ scalar ∈ scalars, r.find? (standardUrl scalar.1) = none := by
  intro scalar hscalar
  exact h.free_iff.mp (hfree _ (List.mem_map_of_mem hscalar))

/-- A scalar is blocked by an entity with its IRI only. -/
theorem Reachable.insertStandard_of_scalar_blocked {r : Registry} (hr : r.Reachable)
    {before rest : List Entity} {e : Entity} {cause : Rejection}
    (hsplit : standardScalars.map scalarEntity = before ++ e :: rest)
    (hfree : ∀ earlier ∈ before, r.Free earlier.href) (hblocks : r.Blocks e cause) :
    r.insertStandard = (r.extend before, .error cause) := by
  have hindexed := hr.wellFormed.indexed
  have hmem : e ∈ standardScalars.map scalarEntity := by
    rw [hsplit]
    simp
  rcases List.map_eq_append_iff.mp hsplit with ⟨earlier, later, hlist, rfl, hlater⟩
  rcases List.map_eq_cons_iff.mp hlater with ⟨scalar, remaining, rfl, rfl, _⟩
  cases hblocks with
  | taken hknown _ =>
      rw [hindexed.free_iff] at hknown
      have hdistinct := (List.nodup_append.mp nodup_standardNames).1
      rw [hlist] at hdistinct
      rw [insertStandard, hlist,
        insertScalars_of_taken hdistinct (hindexed.scalars_free hfree) hknown]
      rfl
  | second _ _ hunion =>
      rw [Kind.isDataTypeUnion_of_isScalar (isScalar_of_mem hmem)] at hunion
      cases hunion

/-- An earlier union blocks the standard one before its IRI is looked up. -/
theorem Reachable.insertStandard_of_union_blocked {r : Registry} (hr : r.Reachable)
    {members : List EntityId} {cause : Rejection}
    (hfree : ∀ e ∈ standardScalars.map scalarEntity, r.Free e.href)
    (hblocks : r.Blocks (unionEntity members) cause) :
    r.insertStandard = (r.extend (standardScalars.map scalarEntity), .error cause) := by
  have hindexed := hr.wellFormed.indexed
  rw [insertStandard_of_scalars_free (hindexed.scalars_free hfree)]
  cases hblocks with
  | taken hknown honly =>
      rw [hindexed.free_iff] at hknown
      rcases Option.ne_none_iff_exists'.mp hknown with ⟨id, hid⟩
      have hid : r.find? (standardUrl standardUnion) = some id := hid
      rw [lacksUnion_iff.mp (honly rfl), hid]
      rfl
  | second hmem hunion _ =>
      rw [hr.unionSound.dataTypeUnion?_eq hmem hunion]
      rfl

/-- The standard entities before one that is blocked are registered, and no others. -/
theorem Reachable.insertStandard_of_blocked {r : Registry} (hr : r.Reachable)
    {before rest : List Entity} {e : Entity} {cause : Rejection}
    (hsplit : standardEntities r.size = before ++ e :: rest)
    (hfree : ∀ earlier ∈ before, r.Free earlier.href) (hblocks : r.Blocks e cause) :
    r.insertStandard = (r.extend before, .error cause) := by
  rw [standardEntities] at hsplit
  -- The union is the last one, so it is blocked just if nothing follows.
  rcases List.eq_nil_or_concat' rest with rfl | ⟨others, last, rfl⟩
  · rcases List.append_inj' hsplit rfl with ⟨rfl, hlast⟩
    cases hlast
    exact hr.insertStandard_of_union_blocked hfree hblocks
  · rw [← List.cons_append, ← List.append_assoc] at hsplit
    rcases List.append_inj' hsplit rfl with ⟨hscalars, _⟩
    exact hr.insertStandard_of_scalar_blocked hscalars hfree hblocks

theorem Reachable.insertStandard_of_free {r : Registry} (hr : r.Reachable)
    (hfree : ∀ e ∈ standardEntities r.size, r.Free e.href) (hunion : r.LacksUnion) :
    r.insertStandard = (r.extend (standardEntities r.size), .ok (List.range' r.size 7)) := by
  have hindexed := hr.wellFormed.indexed
  rcases List.forall_mem_append.mp hfree with ⟨hscalars, hlast⟩
  have hlast : r.find? (standardUrl standardUnion) = none :=
    hindexed.free_iff.mp (hlast _ (List.mem_singleton_self _))
  rw [insertStandard_of_scalars_free (hindexed.scalars_free hscalars), lacksUnion_iff.mp hunion,
    hlast]

/-- Either nothing is blocked, or there is a first entity that is. -/
theorem free_or_blocked (r : Registry) :
    ((∀ e ∈ standardEntities r.size, r.Free e.href) ∧ r.LacksUnion) ∨
      ∃ before e rest cause, standardEntities r.size = before ++ e :: rest ∧
        (∀ earlier ∈ before, r.Free earlier.href) ∧ r.Blocks e cause := by
  classical
  cases hfound : (standardEntities r.size).find? fun e => !decide (r.Free e.href) with
  | none =>
      have hfree : ∀ e ∈ standardEntities r.size, r.Free e.href := by
        simpa [List.find?_eq_none] using hfound
      by_cases hunion : r.LacksUnion
      · exact Or.inl ⟨hfree, hunion⟩
      · right
        have hexists : ∃ union ∈ r.entities, union.kind.isDataTypeUnion = true := by
          simpa [LacksUnion] using hunion
        rcases hexists with ⟨union, hmem, hunion⟩
        have hscalars : ∀ e ∈ standardScalars.map scalarEntity, r.Free e.href :=
          fun e he => hfree e (List.mem_append_left _ he)
        exact ⟨_, _, [], _, rfl, hscalars, Blocks.second hmem hunion rfl⟩
  | some e =>
      right
      rcases List.find?_eq_some_iff_append.mp hfound with ⟨hknown, before, rest, hsplit, hbefore⟩
      have hknown : ¬ r.Free e.href := by
        simpa using hknown
      have hbefore : ∀ earlier ∈ before, r.Free earlier.href := by
        simpa using hbefore
      by_cases honly : e.kind.isDataTypeUnion = true → r.LacksUnion
      · exact ⟨before, e, rest, _, hsplit, hbefore, Blocks.taken hknown honly⟩
      · have hexists : e.kind.isDataTypeUnion = true ∧
            ∃ union ∈ r.entities, union.kind.isDataTypeUnion = true := by
          simpa [LacksUnion] using honly
        rcases hexists with ⟨hkind, union, hmem, hunion⟩
        exact ⟨before, e, rest, _, hsplit, hbefore, Blocks.second hmem hunion hkind⟩

/-!
# What is kept
-/

theorem Reachable.exists_insertStandard_eq {r : Registry} (hr : r.Reachable) :
    ∃ more outcome, r.insertStandard = (r.extend more, outcome) := by
  rcases r.free_or_blocked with ⟨hfree, hunion⟩ | ⟨before, e, rest, cause, hsplit, hfree, hblocks⟩
  · exact ⟨_, _, hr.insertStandard_of_free hfree hunion⟩
  · exact ⟨_, _, hr.insertStandard_of_blocked hsplit hfree hblocks⟩

theorem Reachable.insertStandard_keeps {r : Registry} (hr : r.Reachable) :
    (∀ id e, r.entity? id = some e → r.insertStandard.1.entity? id = some e) ∧
      (∀ href id, r.find? href = some id → r.insertStandard.1.find? href = some id) ∧
      r.insertStandard.1.diagnostics = r.diagnostics := by
  have hafter := hr.wellFormed.steps r.insertStandard_steps
  rcases hr.exists_insertStandard_eq with ⟨more, outcome, heq⟩
  rw [heq] at hafter ⊢
  refine ⟨fun id e he => entity?_extend he more, ?_, r.diagnostics_extend more⟩
  intro href id hfound
  rcases (hr.wellFormed.indexed href id).mp hfound with ⟨e, he, hhref⟩
  exact (hafter.indexed href id).mpr ⟨e, entity?_extend he more, hhref⟩

theorem subjects_standardEntities (first : EntityId) :
    (standardEntities first).map Entity.subject =
      ["Text", "Number", "Time", "Date", "DateTime", "Boolean", "DataType"].map fun name =>
        ⟨name, "https://schema.org/" ++ name⟩ := by
  have hsubjects : (standardEntities first).map Entity.subject =
      ["Text", "Number", "Time", "Date", "DateTime", "Boolean", "DataType"].map fun name =>
        .ofUrl (standardUrl name) := rfl
  rw [hsubjects]
  apply List.map_congr_left
  intro name hname
  apply ofUrl_standardUrl
  revert name
  decide

/--
Registering the standard data types succeeds just if none of their IRIs is registered and
there is no union of data types.  The seven entities then follow at the next positions, the
last one being the union over the other six.  Otherwise there is a first standard entity that
is blocked: those before it are registered, and the cause is that its IRI is taken, or that
it is the union and another union exists already, which comes first.  Whatever is answered,
the earlier entities, their positions and the diagnostics stay as they were.
-/
theorem standard_types_registered {r : Registry} (hr : r.Reachable) :
    (∀ after ids, r.insertStandard = (after, .ok ids) ↔
      (∀ e ∈ standardEntities r.size, r.Free e.href) ∧ r.LacksUnion ∧
        after = r.extend (standardEntities r.size) ∧ ids = List.range' r.size 7) ∧
    (∀ after cause, r.insertStandard = (after, .error cause) ↔
      ∃ before e rest, standardEntities r.size = before ++ e :: rest ∧
        (∀ earlier ∈ before, r.Free earlier.href) ∧ r.Blocks e cause ∧
          after = r.extend before) ∧
    (standardEntities r.size).map Entity.subject =
      (["Text", "Number", "Time", "Date", "DateTime", "Boolean", "DataType"].map fun name =>
        ⟨name, "https://schema.org/" ++ name⟩) ∧
    ((standardEntities r.size).getLast?.map Entity.kind =
      some (.dataTypeUnion (List.range' r.size 6) standardUnionDoc)) ∧
    (∀ more, (r.extend more).entities = r.entities ++ more) ∧
    (∀ id e, r.entity? id = some e → r.insertStandard.1.entity? id = some e) ∧
    (∀ href id, r.find? href = some id → r.insertStandard.1.find? href = some id) ∧
    r.insertStandard.1.diagnostics = r.diagnostics := by
  refine ⟨?_, ?_, subjects_standardEntities r.size, rfl, r.entities_extend, hr.insertStandard_keeps⟩
  · intro after ids
    constructor
    · intro hregistered
      rcases r.free_or_blocked with ⟨hfree, hunion⟩ | ⟨_, _, _, _, hsplit, hfree, hblocks⟩
      · rw [hr.insertStandard_of_free hfree hunion] at hregistered
        cases hregistered
        exact ⟨hfree, hunion, rfl, rfl⟩
      · rw [hr.insertStandard_of_blocked hsplit hfree hblocks] at hregistered
        cases hregistered
    · rintro ⟨hfree, hunion, rfl, rfl⟩
      exact hr.insertStandard_of_free hfree hunion
  · intro after cause
    constructor
    · intro hrefused
      rcases r.free_or_blocked with ⟨hfree, hunion⟩ | ⟨before, e, rest, _, hsplit, hfree, hblocks⟩
      · rw [hr.insertStandard_of_free hfree hunion] at hrefused
        cases hrefused
      · rw [hr.insertStandard_of_blocked hsplit hfree hblocks] at hrefused
        cases hrefused
        exact ⟨before, e, rest, hsplit, hfree, hblocks, rfl⟩
    · rintro ⟨before, e, rest, hsplit, hfree, hblocks, rfl⟩
      exact hr.insertStandard_of_blocked hsplit hfree hblocks

/-- A union of data types under an IRI of its own, and a class under that of the standard one. -/
def ownValues : Registry :=
  empty.run
    [.insertDataTypeUnion "s/Value" [] "",
      .insertClass ⟨"Kinds", "https://schema.org/DataType"⟩ false]

/-- The same with a class under the IRI of the dates. -/
def ownDates : Registry :=
  empty.run
    [.insertDataTypeUnion "s/Value" [] "",
      .insertClass ⟨"Kinds", "https://schema.org/DataType"⟩ false,
      .insertClass ⟨"Day", "https://schema.org/Date"⟩ true]

theorem standard_types_beside_own :
    empty.Reachable ∧ empty.insertStandard =
        (empty.extend (standardEntities 0), .ok [0, 1, 2, 3, 4, 5, 6]) ∧
      ownValues.Reachable ∧ ownValues.insertStandard =
        (ownValues.extend (standardScalars.map scalarEntity),
          .error (.duplicateDataTypeUnion "https://schema.org/DataType" "s/Value")) ∧
      ownDates.Reachable ∧ ownDates.insertStandard =
        (ownDates.extend ((standardScalars.take 3).map scalarEntity),
          .error (.duplicateEntity "https://schema.org/Date")) := by
  have hempty : empty.Reachable := ⟨[], rfl⟩
  have hvalues : ownValues.Reachable := ⟨_, rfl⟩
  have hdates : ownDates.Reachable := ⟨_, rfl⟩
  have hfree {r : Registry} (hr : r.Reachable) {entities : List Entity}
      (hnone : ∀ e ∈ entities, r.find? e.href = none) : ∀ e ∈ entities, r.Free e.href :=
    fun e he => hr.wellFormed.indexed.free_iff.mpr (hnone e he)
  refine ⟨hempty, ?_, hvalues, ?_, hdates, ?_⟩
  · apply ((standard_types_registered hempty).left _ _).mpr
    exact ⟨hfree hempty (by decide), by simp [LacksUnion, empty], rfl, rfl⟩
  · apply ((standard_types_registered hvalues).right.left _ _).mpr
    have hunion : (ownValues.entity? 0).map (fun e => (e.kind, e.href)) =
        some (.dataTypeUnion [] "", "s/Value") := by
      decide
    rcases Option.map_eq_some_iff.mp hunion with ⟨union, hunion, hunionIs⟩
    rcases Prod.mk.inj hunionIs with ⟨hkind, hhref⟩
    have hsecond : ownValues.Blocks (unionEntity (List.range' ownValues.size 6))
        (.duplicateDataTypeUnion "https://schema.org/DataType" union.href) :=
      Blocks.second (mem_entities_iff.mpr ⟨0, hunion⟩) (by rw [hkind]; rfl) rfl
    rw [hhref] at hsecond
    exact ⟨_, _, [], rfl, hfree hvalues (by decide), hsecond, rfl⟩
  · apply ((standard_types_registered hdates).right.left _ _).mpr
    have hknown : ownDates.find? "https://schema.org/Date" ≠ none := by
      decide
    have htaken : ownDates.Blocks (scalarEntity (standardScalars[3]))
        (.duplicateEntity "https://schema.org/Date") := by
      apply Blocks.taken
      · rwa [hdates.wellFormed.indexed.free_iff]
      · intro hunion
        cases hunion
    exact ⟨(standardScalars.take 3).map scalarEntity, _, _, rfl, hfree hdates (by decide),
      htaken, rfl⟩

end Registry
end VocabTypes
