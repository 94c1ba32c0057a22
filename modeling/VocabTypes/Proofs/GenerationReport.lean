import VocabTypes.Proofs.SortedViews

/-!
# The report on a listing

## Counting while generating

A listing and its report are gathered in one walk over all ids in the global order.  The
entity behind each id is counted, and then each of its declarations is added at the end
and counted as an enumeration or as an alias.  What the counters hold at every stage of the
walk is told by the entities met so far.  So at the end they can be told from the registry
alone, by the kinds of its entities.
-/

namespace VocabTypes

namespace Kind

/-- A builtin that is neither an enumeration of two values nor a union. -/
def isPlainBuiltin : Kind → Bool
  | builtin .. => true
  | _ => false

def isBooleanEnum : Kind → Bool
  | booleanEnum .. => true
  | _ => false

end Kind

/-!
# The walk
-/

namespace Listing

/-- An entity is counted before its declarations are added. -/
def meet (listing : Listing) (e : Entity) : Listing :=
  let report := listing.report
  { listing with
    report :=
      { report with
        entities := report.entities + 1
        deprecated := if e.deprecated then report.deprecated + 1 else report.deprecated } }

/-- A declaration is added at the end and counted as what it is. -/
def push (listing : Listing) (d : Declaration) : Listing :=
  let report := listing.report
  { declarations := listing.declarations ++ [d]
    report :=
      match d with
      | .enumeration .. => { report with enumerations := report.enumerations + 1 }
      | .typeAlias .. => { report with aliases := report.aliases + 1 } }

theorem foldl_push (listing : Listing) (ds : List Declaration) :
    ds.foldl push listing =
      { declarations := listing.declarations ++ ds
        report :=
          { listing.report with
            enumerations :=
              listing.report.enumerations + ds.countP fun d => d.isEnumeration
            aliases := listing.report.aliases + ds.countP fun d => !d.isEnumeration } } := by
  induction ds generalizing listing with
  | nil => simp
  | cons d ds ih =>
      rw [List.foldl_cons, ih]
      cases d with
      | enumeration name comment members =>
          simp [push, Declaration.isEnumeration, Nat.add_assoc, Nat.add_comm]
      | typeAlias name comment type =>
          simp [push, Declaration.isEnumeration, Nat.add_assoc, Nat.add_comm]

end Listing

namespace Registry

/-- The entity at a position is met, and what is declared for it is added. -/
def visit? (r : Registry) (o : Options) (listing : Listing) (id : EntityId) : Option Listing := do
  let e ← r.entity? id
  let declarations ← r.checkedDeclarations o id
  return declarations.foldl Listing.push (listing.meet e)

/-- All ids are visited in the global order, with the diagnostics on the report from the start. -/
def generate? (r : Registry) (o : Options) : Option Listing := do
  let ids ← r.checkedIdsInOrder
  ids.foldlM (r.visit? o)
    { declarations := []
      report :=
        { entities := 0, enumerations := 0, aliases := 0, deprecated := 0,
          diagnostics := r.diagnostics } }

/-- The listing of some entities of a registry, in the order in which they are given. -/
def listingOf (r : Registry) (o : Options) (entities : List Entity) : Listing :=
  let declarations := entities.flatMap (r.declarations o)
  { declarations
    report :=
      { entities := entities.length
        enumerations := declarations.countP fun d => d.isEnumeration
        aliases := declarations.countP fun d => !d.isEnumeration
        deprecated := entities.countP fun e => e.deprecated
        diagnostics := r.diagnostics } }

theorem listingOf_concat (r : Registry) (o : Options) (seen : List Entity) (e : Entity) :
    r.listingOf o (seen ++ [e]) =
      (r.declarations o e).foldl Listing.push ((r.listingOf o seen).meet e) := by
  rw [Listing.foldl_push]
  by_cases hdeprecated : e.deprecated = true
  · simp [listingOf, Listing.meet, hdeprecated]
  · simp [listingOf, Listing.meet, hdeprecated]

section

variable {r : Registry} (h : r.WellFormed) (o : Options)

include h

/-- After a visit the listing is that of one entity more. -/
theorem WellFormed.visit?_listingOf (seen : List Entity) {id : EntityId} {e : Entity}
    (he : r.entity? id = some e) :
    r.visit? o (r.listingOf o seen) id = some (r.listingOf o (seen ++ [e])) := by
  rw [visit?, he, Option.bind_eq_bind, Option.bind_some, h.checkedDeclarations_eq he,
    Option.bind_eq_bind, Option.bind_some, listingOf_concat]
  rfl

theorem WellFormed.foldlM_visit? {ids : List EntityId} {entities : List Entity}
    (hids : ids.map r.entity? = entities.map some) (seen : List Entity) :
    ids.foldlM (r.visit? o) (r.listingOf o seen) = some (r.listingOf o (seen ++ entities)) := by
  induction ids generalizing entities seen with
  | nil =>
      rw [List.map_nil, eq_comm, List.map_eq_nil_iff] at hids
      rw [hids, List.append_nil]
      rfl
  | cons id ids ih =>
      cases entities with
      | nil => exact absurd hids (List.cons_ne_nil _ _)
      | cons e entities =>
          -- The walk goes on with the listing of one entity more, so that is what varies.
          rcases List.cons.inj hids with ⟨he, hrest⟩
          rw [List.foldlM_cons, h.visit?_listingOf o seen he, Option.bind_eq_bind,
            Option.bind_some, ih hrest, List.append_assoc]
          rfl

theorem WellFormed.generate?_eq : r.generate? o = some (r.listing o) := by
  rw [generate?, checkedIdsInOrder_eq, Option.bind_eq_bind, Option.bind_some]
  exact h.foldlM_visit? o r.map_some_entitiesInOrder []

end

/-!
# Counting by kind
-/

/-- What is declared for one entity, by its kind. -/
theorem countP_declarations (r : Registry) (o : Options) (e : Entity) :
    ((r.declarations o e).countP fun d => d.isEnumeration) =
      (if e.kind.isBooleanEnum then 1 else 0) +
        (if e.kind = .rdfsClass ∧ e.enumValues ≠ [] then 1 else 0) ∧
    ((r.declarations o e).countP fun d => !d.isEnumeration) =
      (if e.kind.isPlainBuiltin then 1 else 0) + (if e.kind.isDataTypeUnion then 1 else 0) +
        2 * if e.kind = .rdfsClass then 1 else 0 := by
  rw [declarations]
  cases e.kind with
  | rdfsClass =>
      rw [declarationsOfClass]
      by_cases hvalues : e.enumValues = []
      · simp [Entity.enumeration_of_nil hvalues, hvalues, Kind.isBooleanEnum,
          Kind.isPlainBuiltin, Kind.isDataTypeUnion, Declaration.isEnumeration]
      · simp [Entity.enumeration_of_values hvalues, hvalues, Kind.isBooleanEnum,
          Kind.isPlainBuiltin, Kind.isDataTypeUnion, Declaration.isEnumeration]
  | builtin typeName doc => exact ⟨rfl, rfl⟩
  | booleanEnum trueUrl falseUrl doc => exact ⟨rfl, rfl⟩
  | dataTypeUnion members doc => exact ⟨rfl, rfl⟩

theorem enumerations_listingOf (r : Registry) (o : Options) (entities : List Entity) :
    (r.listingOf o entities).report.enumerations =
      (entities.countP fun e => e.kind.isBooleanEnum) +
        entities.countP fun e => e.kind = .rdfsClass ∧ e.enumValues ≠ [] := by
  rw [listingOf]
  induction entities with
  | nil => rfl
  | cons e entities ih =>
      dsimp only at ih ⊢
      rw [List.flatMap_cons, List.countP_append, ih, (r.countP_declarations o e).left]
      simp only [List.countP_cons, decide_eq_true_eq]
      omega

theorem aliases_listingOf (r : Registry) (o : Options) (entities : List Entity) :
    (r.listingOf o entities).report.aliases =
      (entities.countP fun e => e.kind.isPlainBuiltin) +
        (entities.countP fun e => e.kind.isDataTypeUnion) +
        2 * entities.countP fun e => e.kind = .rdfsClass := by
  rw [listingOf]
  induction entities with
  | nil => rfl
  | cons e entities ih =>
      dsimp only at ih ⊢
      rw [List.flatMap_cons, List.countP_append, ih, (r.countP_declarations o e).right]
      simp only [List.countP_cons, decide_eq_true_eq]
      omega

theorem deprecated_listingOf (r : Registry) (o : Options) (entities : List Entity) :
    (r.listingOf o entities).report.deprecated =
      entities.countP fun e => e.replacements ≠ [] := by
  apply List.countP_congr
  intro e _
  simp [Entity.deprecated]

/--
Generating visits each entity once, in the global order, and gives the declarations of one
after those of the one before.  The report counts the entities, the enumerations among the
declarations, of which there is one for each enumeration of two values and for each class with
values, the aliases among them, of which there is one for each plain builtin and for the union
of data types and two for each class, and the entities with a replacement; and it has the
diagnostics of the registry.
-/
theorem generation_report_is_exact {r : Registry} (hr : r.Reachable) (o : Options) :
    r.generate? o = some (r.listing o) ∧
    (r.idsInOrder.Perm (List.range r.size) ∧ r.idsInOrder.IsChain r.Before ∧
      r.idsInOrder.map r.entity? = r.entitiesInOrder.map some ∧
      (r.listing o).declarations = r.entitiesInOrder.flatMap (r.declarations o)) ∧
    (r.listing o).report.entities = r.size ∧
    ((r.listing o).report.enumerations =
        ((r.listing o).declarations.countP fun d => d.isEnumeration) ∧
      (r.listing o).report.enumerations =
        (r.entities.countP fun e => e.kind.isBooleanEnum) +
          r.entities.countP fun e => e.kind = .rdfsClass ∧ e.enumValues ≠ []) ∧
    ((r.listing o).report.aliases =
        ((r.listing o).declarations.countP fun d => !d.isEnumeration) ∧
      (r.listing o).report.aliases =
        (r.entities.countP fun e => e.kind.isPlainBuiltin) +
          (r.entities.countP fun e => e.kind.isDataTypeUnion) +
          2 * r.entities.countP fun e => e.kind = .rdfsClass) ∧
    ((r.listing o).report.deprecated = r.entities.countP fun e => e.replacements ≠ []) ∧
    (r.listing o).report.diagnostics = r.diagnostics := by
  have hperm := r.entitiesInOrder_perm
  refine ⟨hr.wellFormed.generate?_eq o, ⟨r.idsInOrder_perm,
    hr.wellFormed.indexed.pairwise_idsInOrder.isChain, r.map_some_entitiesInOrder, rfl⟩,
    hperm.length_eq, ⟨rfl, ?_⟩, ⟨rfl, ?_⟩, ?_, rfl⟩
  · rw [← hperm.countP_eq, ← hperm.countP_eq]
    exact r.enumerations_listingOf o r.entitiesInOrder
  · rw [← hperm.countP_eq, ← hperm.countP_eq, ← hperm.countP_eq]
    exact r.aliases_listingOf o r.entitiesInOrder
  · rw [← hperm.countP_eq]
    exact r.deprecated_listingOf o r.entitiesInOrder

/-- The catalogue with a value for one class, and a comment on the other that was overwritten. -/
def annotatedCatalogue : Registry :=
  empty.run (catalogueCalls ++
    [.addEnumValue 4 ⟨⟨"Rare", "s:Rare"⟩, none⟩,
      .assert 3 (Statement.comment "A work.").toFact,
      .assert 3 (Statement.comment "Any work.").toFact])

theorem report_of_annotatedCatalogue :
    annotatedCatalogue.Reachable ∧
      annotatedCatalogue.generate? .standard = some (annotatedCatalogue.listing .standard) ∧
      (annotatedCatalogue.listing .standard).report.entities = 5 ∧
      (annotatedCatalogue.listing .standard).report.enumerations = 1 + 1 ∧
      (annotatedCatalogue.listing .standard).report.aliases = 1 + 1 + 2 * 2 ∧
      (annotatedCatalogue.listing .standard).report.deprecated = 1 ∧
      (annotatedCatalogue.listing .standard).report.diagnostics =
        [⟨.warning, "s:Work", "duplicate comment; previous value overwritten"⟩] := by
  have hr : annotatedCatalogue.Reachable := ⟨_, rfl⟩
  rcases generation_report_is_exact hr .standard with
    ⟨hgenerate, _, hsize, ⟨_, henumerations⟩, ⟨_, haliases⟩, hdeprecated, hdiagnostics⟩
  refine ⟨hr, hgenerate, ?_, ?_, ?_, ?_, ?_⟩
  · rw [hsize]
    cbv
  · rw [henumerations]
    cbv
  · rw [haliases]
    cbv
  · rw [hdeprecated]
    cbv
  · rw [hdiagnostics]
    cbv

end Registry

end VocabTypes
