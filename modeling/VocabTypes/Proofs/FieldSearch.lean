import VocabTypes.Proofs.Inheritance
import VocabTypes.Proofs.PrintableTypes
import VocabTypes.Proofs.SortedViews

/-!
# Looking for a field

## Fields that are shown and fields that are buried

A type shows the fields of the records that its unions, intersections and parentheses lead
to.  The types of these fields may be made of further records, whose fields are buried in
them.  The search for a field by name finds the ones that are shown and no others, so it
misses a name that is buried only.  The types of a listing bury nothing.
-/

namespace VocabTypes
namespace TypeExpr

/-- A field stands in a record that is met without going into the type of another field. -/
inductive Shows (field : Field) : TypeExpr → Prop where
  | record {fields : List Field} (mem : field ∈ fields) : Shows field (.record fields)
  | union {arms : List TypeExpr} {arm : TypeExpr} (mem : arm ∈ arms) (shown : Shows field arm) :
      Shows field (.union arms)
  | intersection {arms : List TypeExpr} {arm : TypeExpr} (mem : arm ∈ arms)
      (shown : Shows field arm) : Shows field (.intersection arms)
  | parenthesized {inner : TypeExpr} (shown : Shows field inner) :
      Shows field (.parenthesized inner)

/-- A field of this name stands in some record within a type, at any depth. -/
def Mentions (name : String) (type : TypeExpr) : Prop :=
  ∃ field, type.Contains field ∧ field.name = name

/-!
# Shown fields
-/

section

variable {field : Field}

@[simp] theorem not_shows_reference {name : String} : ¬ Shows field (reference name) := by
  intro h
  cases h

@[simp] theorem not_shows_literal {value : String} : ¬ Shows field (literal value) := by
  intro h
  cases h

@[simp] theorem shows_union_iff {arms : List TypeExpr} :
    Shows field (union arms) ↔ ∃ arm ∈ arms, Shows field arm := by
  constructor
  · intro h
    cases h with
    | union hmem hshown => exact ⟨_, hmem, hshown⟩
  · rintro ⟨arm, hmem, hshown⟩
    exact Shows.union hmem hshown

@[simp] theorem shows_intersection_iff {arms : List TypeExpr} :
    Shows field (intersection arms) ↔ ∃ arm ∈ arms, Shows field arm := by
  constructor
  · intro h
    cases h with
    | intersection hmem hshown => exact ⟨_, hmem, hshown⟩
  · rintro ⟨arm, hmem, hshown⟩
    exact Shows.intersection hmem hshown

@[simp] theorem shows_parenthesized_iff {inner : TypeExpr} :
    Shows field (parenthesized inner) ↔ Shows field inner := by
  constructor
  · intro h
    cases h with
    | parenthesized hshown => exact hshown
  · exact Shows.parenthesized

@[simp] theorem shows_record_iff {fields : List Field} :
    Shows field (record fields) ↔ field ∈ fields := by
  constructor
  · intro h
    cases h with
    | record hmem => exact hmem
  · exact Shows.record

end

theorem anyHasField_eq_any (name : String) (arms : List TypeExpr) :
    anyHasField name arms = arms.any fun arm => arm.hasField name := by
  induction arms with
  | nil => rfl
  | cons arm arms ih => rw [anyHasField, List.any_cons, ih]

/-- The search goes exactly where the fields are shown. -/
theorem hasField_iff_shows {name : String} {type : TypeExpr} :
    type.hasField name = true ↔ ∃ field, Shows field type ∧ field.name = name := by
  have harms {arms : List TypeExpr}
      (ih : ∀ arm ∈ arms,
        (arm.hasField name = true ↔ ∃ field, Shows field arm ∧ field.name = name)) :
      anyHasField name arms = true ↔
        ∃ field, (∃ arm ∈ arms, Shows field arm) ∧ field.name = name := by
    rw [anyHasField_eq_any, List.any_eq_true]
    constructor
    · rintro ⟨arm, hmem, hfound⟩
      rcases (ih arm hmem).mp hfound with ⟨field, hshown, hname⟩
      exact ⟨field, ⟨arm, hmem, hshown⟩, hname⟩
    · rintro ⟨field, ⟨arm, hmem, hshown⟩, hname⟩
      exact ⟨arm, hmem, (ih arm hmem).mpr ⟨field, hshown, hname⟩⟩
  induction type with
  | reference _ => simp [hasField]
  | literal _ => simp [hasField]
  | union arms ih => simpa only [hasField, shows_union_iff] using harms ih
  | intersection arms ih => simpa only [hasField, shows_intersection_iff] using harms ih
  | parenthesized inner ih => simpa only [hasField, shows_parenthesized_iff] using ih
  | record fields _ => simp [hasField]

/-!
# Buried fields
-/

section

variable {field : Field}

@[simp] theorem not_contains_reference {name : String} : ¬ (reference name).Contains field := by
  simp [Contains, nodes]

@[simp] theorem not_contains_literal {value : String} : ¬ (literal value).Contains field := by
  simp [Contains, nodes]

@[simp] theorem contains_union_iff {arms : List TypeExpr} :
    (union arms).Contains field ↔ ∃ arm ∈ arms, arm.Contains field := by
  simp only [Contains, nodes, allNodes_eq_flatMap, List.mem_cons, reduceCtorEq, false_or,
    List.mem_flatMap]
  grind

@[simp] theorem contains_intersection_iff {arms : List TypeExpr} :
    (intersection arms).Contains field ↔ ∃ arm ∈ arms, arm.Contains field := by
  simp only [Contains, nodes, allNodes_eq_flatMap, List.mem_cons, reduceCtorEq, false_or,
    List.mem_flatMap]
  grind

@[simp] theorem contains_parenthesized_iff {inner : TypeExpr} :
    (parenthesized inner).Contains field ↔ inner.Contains field := by
  simp [Contains, nodes]

@[simp] theorem contains_record_iff {fields : List Field} :
    (record fields).Contains field ↔
      field ∈ fields ∨ ∃ outer ∈ fields, outer.type.Contains field := by
  simp only [Contains, nodes, Field.allNodes_eq_flatMap, List.mem_cons, record.injEq,
    List.mem_flatMap]
  grind

/-- A field within a type is shown, or buried in one that is shown. -/
theorem contains_iff {type : TypeExpr} :
    type.Contains field ↔
      Shows field type ∨ ∃ outer, Shows outer type ∧ outer.type.Contains field := by
  have harms {arms : List TypeExpr}
      (ih : ∀ arm ∈ arms, (arm.Contains field ↔
        Shows field arm ∨ ∃ outer, Shows outer arm ∧ outer.type.Contains field)) :
      (∃ arm ∈ arms, arm.Contains field) ↔ (∃ arm ∈ arms, Shows field arm) ∨
        ∃ outer, (∃ arm ∈ arms, Shows outer arm) ∧ outer.type.Contains field := by
    constructor
    · rintro ⟨arm, hmem, hcontains⟩
      rcases (ih arm hmem).mp hcontains with hshown | ⟨outer, hshown, hburied⟩
      · exact Or.inl ⟨arm, hmem, hshown⟩
      · exact Or.inr ⟨outer, ⟨arm, hmem, hshown⟩, hburied⟩
    · rintro (⟨arm, hmem, hshown⟩ | ⟨outer, ⟨arm, hmem, hshown⟩, hburied⟩)
      · exact ⟨arm, hmem, (ih arm hmem).mpr (Or.inl hshown)⟩
      · exact ⟨arm, hmem, (ih arm hmem).mpr (Or.inr ⟨outer, hshown, hburied⟩)⟩
  induction type with
  | reference _ => simp
  | literal _ => simp
  | union arms ih => simpa only [contains_union_iff, shows_union_iff] using harms ih
  | intersection arms ih =>
      simpa only [contains_intersection_iff, shows_intersection_iff] using harms ih
  | parenthesized inner ih =>
      simpa only [contains_parenthesized_iff, shows_parenthesized_iff] using ih
  | record fields _ => simp only [contains_record_iff, shows_record_iff]

end

/-- A name is mentioned where the search finds it, or in the type of a field that is shown. -/
theorem mentions_iff {name : String} {type : TypeExpr} :
    type.Mentions name ↔
      type.hasField name = true ∨ ∃ outer, Shows outer type ∧ outer.type.Mentions name := by
  rw [hasField_iff_shows]
  constructor
  · rintro ⟨field, hcontains, hname⟩
    rcases contains_iff.mp hcontains with hshown | ⟨outer, hshown, hburied⟩
    · exact Or.inl ⟨field, hshown, hname⟩
    · exact Or.inr ⟨outer, hshown, field, hburied, hname⟩
  · rintro (⟨field, hshown, hname⟩ | ⟨outer, hshown, field, hburied, hname⟩)
    · exact ⟨field, contains_iff.mpr (Or.inl hshown), hname⟩
    · exact ⟨field, contains_iff.mpr (Or.inr ⟨outer, hshown, hburied⟩), hname⟩

/-!
# Types that bury nothing
-/

/-- No field that a type shows is itself made of records with fields. -/
def BuriesNothing (type : TypeExpr) : Prop :=
  ∀ outer, Shows outer type → ∀ field, ¬ outer.type.Contains field

theorem BuriesNothing.hasField_iff {type : TypeExpr} (h : type.BuriesNothing) (name : String) :
    type.hasField name = true ↔ type.Mentions name := by
  rw [mentions_iff]
  constructor
  · exact Or.inl
  · rintro (hfound | ⟨outer, hshown, field, hburied, _⟩)
    · exact hfound
    · exact absurd hburied (h outer hshown field)

@[simp] theorem buriesNothing_reference {name : String} : (reference name).BuriesNothing := by
  simp [BuriesNothing]

@[simp] theorem buriesNothing_union_iff {arms : List TypeExpr} :
    (union arms).BuriesNothing ↔ ∀ arm ∈ arms, arm.BuriesNothing := by
  simp only [BuriesNothing, shows_union_iff]
  grind

@[simp] theorem buriesNothing_intersection_iff {arms : List TypeExpr} :
    (intersection arms).BuriesNothing ↔ ∀ arm ∈ arms, arm.BuriesNothing := by
  simp only [BuriesNothing, shows_intersection_iff]
  grind

@[simp] theorem buriesNothing_parenthesized_iff {inner : TypeExpr} :
    (parenthesized inner).BuriesNothing ↔ inner.BuriesNothing := by
  simp only [BuriesNothing, shows_parenthesized_iff]

theorem buriesNothing_record_iff {fields : List Field} :
    (record fields).BuriesNothing ↔
      ∀ outer ∈ fields, ∀ field, ¬ outer.type.Contains field := by
  simp only [BuriesNothing, shows_record_iff]

theorem buriesNothing_both {first second : Option TypeExpr}
    (hfirst : ∀ type ∈ first, type.BuriesNothing)
    (hsecond : ∀ type ∈ second, type.BuriesNothing) :
    (both first second).BuriesNothing := by
  cases first with
  | none =>
      cases second with
      | none => simp [both, buriesNothing_record_iff]
      | some only => exact hsecond only rfl
  | some type =>
      cases second with
      | none => exact hfirst type rfl
      | some other => simp [both, hfirst type rfl, hsecond other rfl]

end TypeExpr

open TypeExpr

/-- The values of a property are written by name. -/
theorem Property.not_contains_valueType (p : Property) (field : Field) :
    ¬ p.valueType.Contains field := by
  unfold valueType
  cases p.distinctRanges with
  | nil => simp
  | cons range ranges =>
      cases ranges with
      | nil => simp
      | cons second ranges => simp

theorem Entity.buriesNothing_ownRecord? (o : Options) (e : Entity) :
    ∀ type ∈ e.ownRecord? o, type.BuriesNothing := by
  intro type htype
  have hrecord : type = .record (e.ownFields o) := by
    unfold ownRecord? at htype
    cases hfields : e.ownFields o with
    | nil => simp [hfields] at htype
    | cons field fields => simpa [hfields, eq_comm] using htype
  rw [hrecord, buriesNothing_record_iff]
  intro outer houter field
  rcases mem_ownFields_iff.mp houter with ⟨_, rfl⟩ | ⟨p, _, _, rfl⟩
  · exact not_contains_reference
  · exact p.not_contains_valueType field

namespace Registry

variable (r : Registry) (o : Options) (e : Entity)

theorem buriesNothing_baseShape : (r.baseShape o e).BuriesNothing := by
  apply buriesNothing_both
  · unfold parentBase?
    cases r.resolve e.parents with
    | nil => simp
    | cons parent parents =>
        cases parents with
        | nil => simp
        | cons second parents => simp
  · exact e.buriesNothing_ownRecord? o

theorem buriesNothing_directShape : (r.directShape o e).BuriesNothing := by
  unfold directShape
  split
  · simp
  · simp [buriesNothing_record_iff, Entity.classField, Field.mustHave]

theorem buriesNothing_instanceShape : (r.instanceShape o e).BuriesNothing := by
  have hdirect := r.buriesNothing_directShape o e
  unfold instanceShape
  rw [otherArms_eq_map_otherNames]
  cases r.otherNames e with
  | nil => exact hdirect
  | cons name names =>
      cases names with
      | nil => simp [hdirect]
      | cons second names => simp [hdirect]

theorem buriesNothing_publicShape : (r.publicShape o e).BuriesNothing := by
  have hinstances := r.buriesNothing_instanceShape o e
  unfold publicShape
  cases e.enumValues with
  | nil => exact hinstances
  | cons value values => simp [hinstances]

theorem buriesNothing_of_mem_listing {d : Declaration} (hd : d ∈ (r.listing o).declarations)
    {type : TypeExpr} (htype : d.type? = some type) : type.BuriesNothing := by
  rcases List.mem_flatMap.mp hd with ⟨e, _, hmem⟩
  cases d with
  | enumeration name comment members => cases htype
  | typeAlias name comment inner =>
      cases htype
      rcases typeAlias_mem_declarations hmem with ⟨_, rfl | rfl⟩ | ⟨_, _, _, rfl⟩ |
        ⟨members, _, _, _, rfl⟩
      · exact r.buriesNothing_baseShape o e
      · exact r.buriesNothing_publicShape o e
      · exact buriesNothing_reference
      · simp

end Registry

/--
The search for a field finds the names of the fields that a type shows.  A name that a type
mentions at any depth is found by it unless it is mentioned in the types of shown fields
only, and there are no such names in the types of a listing.
-/
theorem hasField_finds_shown (name : String) (type : TypeExpr) :
    (type.hasField name = true ↔ ∃ field, Shows field type ∧ field.name = name) ∧
    ((type.hasField name = true ↔ type.Mentions name) ↔
      ((∃ outer, Shows outer type ∧ outer.type.Mentions name) →
        ∃ field, Shows field type ∧ field.name = name)) ∧
    ∀ (r : Registry) (o : Options), ∀ d ∈ (r.listing o).declarations, d.type? = some type →
      (type.hasField name = true ↔ type.Mentions name) := by
  refine ⟨hasField_iff_shows, ?_, ?_⟩
  · rw [mentions_iff, ← hasField_iff_shows]
    constructor
    · intro hexact hburied
      exact hexact.mpr (Or.inr hburied)
    · intro hfound
      constructor
      · exact Or.inl
      · rintro (hshown | hburied)
        · exact hshown
        · exact hfound hburied
  · intro r o d hd htype
    exact (r.buriesNothing_of_mem_listing o hd htype).hasField_iff name

/-- Options under which every identifier is written in full. -/
def writtenInFull : Options :=
  { Options.standard with context := { namespaces := [] } }

/-- The base type of a day, with what identifies it, its date and its two notes. -/
def dayShape : TypeExpr :=
  .record
    [.mayHave "@id" .string,
      .mayHave "s:date" (.reference "never"),
      ⟨"s:note", true, .reference "never", some "short"⟩,
      ⟨"s:note", true, .reference "never", some "long\n@deprecated"⟩]

theorem hasField_finds_notes_of_day :
    (∃ d ∈ (Registry.weekShelf.listing writtenInFull).declarations, d.type? = some dayShape) ∧
      dayShape.Mentions "s:note" ∧ ¬ dayShape.Mentions "Day" := by
  have hday : (Registry.weekShelf.entity? 0).map (fun e =>
      (e.kind, Registry.weekShelf.baseShape writtenInFull e)) = some (.rdfsClass, dayShape) := by
    cbv
  rcases Option.map_eq_some_iff.mp hday with ⟨day, hday, hdayIs⟩
  rcases Prod.mk.inj hdayIs with ⟨hclass, hshape⟩
  have hbase : .typeAlias day.nameOfBase none dayShape ∈
      (Registry.weekShelf.listing writtenInFull).declarations := by
    apply Registry.mem_listing_of_mem_declarations hday
    rw [Registry.declarations_of_class hclass, Registry.declarationsOfClass, hshape]
    exact List.mem_append_right _ List.mem_cons_self
  have hexact (name : String) := (hasField_finds_shown name dayShape).right.right
    Registry.weekShelf writtenInFull _ hbase rfl
  refine ⟨⟨_, hbase, rfl⟩, (hexact "s:note").mp (by decide), ?_⟩
  rw [← hexact]
  decide

/-- A record with a field whose type is a record. -/
def nestedShape : TypeExpr :=
  .record [.mayHave "author" (.record [.mayHave "name" (.reference "Text")])]

theorem nestedShape_field_missed :
    nestedShape.Mentions "name" ∧ nestedShape.hasField "name" = false ∧
      ¬ ∀ (type : TypeExpr) (name : String), type.hasField name = true ↔ type.Mentions name := by
  have hmentions : nestedShape.Mentions "name" := by
    refine ⟨.mayHave "name" (.reference "Text"), ?_, rfl⟩
    simp [nestedShape, Field.mayHave]
  have hmissed : nestedShape.hasField "name" = false := by
    decide
  refine ⟨hmentions, hmissed, ?_⟩
  intro hexact
  rw [← hexact, hmissed] at hmentions
  cases hmentions

end VocabTypes
