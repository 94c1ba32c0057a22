import VocabTypes.Proofs.ReadBack
import VocabTypes.Proofs.References

/-!
# Printable types

## A type for every name

Unions and intersections are put together from lists that a registry supplies: parents,
children, ranges, members.  Each place but one has another form for the empty list, so that
every operator in the printed text stands between two types.  The members of a union of
data types are taken as they come, and without members nothing is printed for the union.
-/

namespace VocabTypes

open Text

/-!
# Nodes with arms
-/

namespace TypeExpr

@[simp] theorem hasArms_reference (name : String) : (reference name).HasArms :=
  trivial

@[simp] theorem hasArms_literal (value : String) : (literal value).HasArms :=
  trivial

@[simp] theorem hasArms_record (fields : List Field) : (record fields).HasArms :=
  trivial

@[simp] theorem hasArms_parenthesized (inner : TypeExpr) : (parenthesized inner).HasArms :=
  trivial

@[simp] theorem hasArms_union_iff {arms : List TypeExpr} : (union arms).HasArms ↔ arms ≠ [] :=
  List.isEmpty_eq_false_iff

@[simp] theorem hasArms_intersection_iff {arms : List TypeExpr} :
    (intersection arms).HasArms ↔ arms ≠ [] :=
  List.isEmpty_eq_false_iff

theorem hasArms_both {first second : Option TypeExpr}
    (hfirst : ∀ type ∈ first, type.Everywhere HasArms)
    (hsecond : ∀ type ∈ second, type.Everywhere HasArms) :
    (both first second).Everywhere HasArms := by
  cases first with
  | none =>
      cases second with
      | none => simp [both]
      | some only => exact hsecond only rfl
  | some type =>
      cases second with
      | none => exact hfirst type rfl
      | some other => simp [both, hfirst type rfl, hsecond other rfl]

end TypeExpr

/-!
# Texts of types
-/

mutual

/-- A text of a type over some names: every operator in it stands between two such texts. -/
inductive Phrase (names : List String) : String → Prop where
  | name {name : String} (mem : name ∈ names) (written : name ≠ "") : Phrase names name
  | literal (value : String) : Phrase names (quote value)
  | union {first rest : String} (left : Phrase names first) (right : Phrase names rest) :
      Phrase names (first ++ " | " ++ rest)
  | intersection {first rest : String} (left : Phrase names first) (right : Phrase names rest) :
      Phrase names (first ++ " & " ++ rest)
  | parenthesized {inner : String} (inside : Phrase names inner) :
      Phrase names ("(" ++ inner ++ ")")
  | emptyRecord : Phrase names "\x7b\x7d"
  | record {depth : Nat} {lines : String} (fields : FieldLines names (depth + 1) lines) :
      Phrase names ("\x7b\n" ++ lines ++ indent depth ++ "\x7d")

/-- Fields below one another, each with the text of its type. -/
inductive FieldLines (names : List String) : Nat → String → Prop where
  | nil {depth : Nat} : FieldLines names depth ""
  | cons {depth : Nat} {type rest : String} (comment : Option String) (label : String)
      (optional : Bool) (value : Phrase names type) (others : FieldLines names depth rest) :
      FieldLines names depth
        (commentBlock? comment depth ++ indent depth ++ quote label ++
          (if optional then "?" else "") ++ ": " ++ type ++ ";\n" ++ rest)

end

theorem Phrase.ne_empty {names : List String} {text : String} (h : Phrase names text) :
    text ≠ "" := by
  cases h with
  | name _ written => exact written
  | literal value => simp [quote]
  | union left right => simp
  | intersection left right => simp
  | parenthesized inside => simp
  | emptyRecord => simp
  | record fields => simp

/-- An operator between two types each is one between several types. -/
theorem Phrase.intercalate {names : List String} {operator : String}
    (hoperator : ∀ {first rest : String}, Phrase names first → Phrase names rest →
      Phrase names (first ++ operator ++ rest))
    {texts : List String} (hne : texts ≠ []) (h : ∀ text ∈ texts, Phrase names text) :
    Phrase names (operator.intercalate texts) := by
  induction texts with
  | nil => exact absurd rfl hne
  | cons text texts ih =>
      rcases List.forall_mem_cons.mp h with ⟨htext, htexts⟩
      cases texts with
      | nil =>
          rw [String.intercalate_singleton]
          exact htext
      | cons second texts =>
          rw [String.intercalate_cons_cons]
          exact hoperator htext (ih (List.cons_ne_nil _ _) htexts)

theorem Field.names_eq (field : Field) : field.names = field.type.names := by
  cases field with
  | mk label optional type comment => rw [names]

namespace TypeExpr

theorem mem_allNames_iff {name : String} {types : List TypeExpr} :
    name ∈ allNames types ↔ ∃ type ∈ types, name ∈ type.names := by
  induction types with
  | nil => simp [allNames]
  | cons type types ih => simp [allNames, ih]

theorem phrase_grouped {names : List String} {text : String} (arm : TypeExpr)
    (h : Phrase names text) : Phrase names (arm.grouped text) := by
  unfold grouped
  split
  · exact .parenthesized h
  · exact h

theorem fieldLines_layoutAll {names : List String} {depth : Nat} {fields : List Field}
    (h : ∀ field ∈ fields, Phrase names (field.type.layout depth)) :
    FieldLines names depth (Field.layoutAll depth fields) := by
  induction fields with
  | nil => exact .nil
  | cons field fields ih =>
      rcases List.forall_mem_cons.mp h with ⟨hfield, hfields⟩
      rcases field with ⟨label, optional, type, comment⟩
      rw [Field.layoutAll, Field.layout]
      exact .cons comment label optional hfield (ih hfields)

/-- Where every union and intersection has arms, a type is printed as a text of a type. -/
theorem phrase_layout {names : List String} {type : TypeExpr} (harms : type.Everywhere HasArms)
    (hnames : ∀ name ∈ type.names, name ∈ names ∧ name ≠ "") (depth : Nat) :
    Phrase names (type.layout depth) := by
  induction type generalizing depth with
  | reference name =>
      rcases hnames name List.mem_cons_self with ⟨hmem, hne⟩
      exact .name hmem hne
  | literal value => exact .literal value
  | union arms ih =>
      rcases everywhere_union.mp harms with ⟨hne, harms⟩
      rw [layout, layoutArms_eq_map]
      apply Phrase.intercalate .union (by simpa using hne)
      intro text htext
      rcases List.mem_map.mp htext with ⟨arm, harm, rfl⟩
      exact ih arm harm (harms arm harm)
        (fun name hname => hnames name (mem_allNames_iff.mpr ⟨arm, harm, hname⟩)) depth
  | intersection arms ih =>
      rcases everywhere_intersection.mp harms with ⟨hne, harms⟩
      rw [layout, layoutFactors_eq_map]
      apply Phrase.intercalate .intersection (by simpa using hne)
      intro text htext
      rcases List.mem_map.mp htext with ⟨arm, harm, rfl⟩
      exact phrase_grouped arm (ih arm harm (harms arm harm)
        (fun name hname => hnames name (mem_allNames_iff.mpr ⟨arm, harm, hname⟩)) depth)
  | parenthesized inner ih =>
      exact .parenthesized (ih (everywhere_parenthesized.mp harms).2 hnames depth)
  | record fields ih =>
      cases fields with
      | nil => exact .emptyRecord
      | cons field fields =>
          have hfields := (everywhere_record.mp harms).2
          have hlines : FieldLines names (depth + 1)
              (Field.layoutAll (depth + 1) (field :: fields)) := by
            apply fieldLines_layoutAll
            intro inner hinner
            apply ih inner hinner (hfields inner hinner)
            intro name hname
            apply hnames name
            rw [names_record, Field.allNames_eq_flatMap, List.mem_flatMap]
            exact ⟨inner, hinner, inner.names_eq ▸ hname⟩
          exact .record hlines

end TypeExpr

open TypeExpr

/-!
# Types of entities
-/

/-- A property without ranges has a type all the same. -/
theorem Property.hasArms_valueType (p : Property) : p.valueType.Everywhere HasArms := by
  unfold valueType
  cases p.distinctRanges with
  | nil => simp
  | cons range ranges =>
      cases ranges with
      | nil => simp
      | cons second ranges => simp

theorem Entity.hasArms_ownRecord? (o : Options) (e : Entity) :
    ∀ type ∈ e.ownRecord? o, type.Everywhere HasArms := by
  intro type htype
  have hrecord : type = .record (e.ownFields o) := by
    unfold ownRecord? at htype
    cases hfields : e.ownFields o with
    | nil => simp [hfields] at htype
    | cons field fields => simpa [hfields, eq_comm] using htype
  rw [hrecord, everywhere_record]
  refine ⟨hasArms_record _, ?_⟩
  intro field hfield
  rcases mem_ownFields_iff.mp hfield with ⟨_, rfl⟩ | ⟨p, _, _, rfl⟩
  · exact everywhere_reference.mpr (hasArms_reference "string")
  · exact p.hasArms_valueType

namespace Registry

theorem hasArms_parentBase? (r : Registry) (e : Entity) :
    ∀ type ∈ r.parentBase? e, type.Everywhere HasArms := by
  unfold parentBase?
  cases r.resolve e.parents with
  | nil => simp
  | cons parent parents =>
      cases parents with
      | nil => simp
      | cons second parents => simp

theorem hasArms_baseShape (r : Registry) (o : Options) (e : Entity) :
    (r.baseShape o e).Everywhere HasArms :=
  hasArms_both (r.hasArms_parentBase? e) (e.hasArms_ownRecord? o)

theorem hasArms_directShape (r : Registry) (o : Options) (e : Entity) :
    (r.directShape o e).Everywhere HasArms := by
  unfold directShape
  split
  · simp
  · simp [Entity.classField, Field.mustHave]

theorem hasArms_instanceShape (r : Registry) (o : Options) (e : Entity) :
    (r.instanceShape o e).Everywhere HasArms := by
  have hdirect := r.hasArms_directShape o e
  unfold instanceShape
  rw [otherArms_eq_map_otherNames]
  cases r.otherNames e with
  | nil => exact hdirect
  | cons name names =>
      cases names with
      | nil => simp [hdirect]
      | cons second names => simp [hdirect]

theorem hasArms_publicShape (r : Registry) (o : Options) (e : Entity) :
    (r.publicShape o e).Everywhere HasArms := by
  have hinstances := r.hasArms_instanceShape o e
  unfold publicShape
  cases e.enumValues with
  | nil => exact hinstances
  | cons value values => simp [hinstances]

/-!
# Aliases
-/

section

variable {r : Registry} {o : Options} {e : Entity} {name : String} {comment : Option String}
  {type : TypeExpr}

/-- What the aliases of an entity stand for. -/
theorem typeAlias_mem_declarations
    (hd : .typeAlias name comment type ∈ r.declarations o e) :
    (e.kind = .rdfsClass ∧ (type = r.baseShape o e ∨ type = r.publicShape o e)) ∨
      (∃ typeName doc, e.kind = .builtin typeName doc ∧ type = .reference typeName) ∨
      ∃ members doc, e.kind = .dataTypeUnion members doc ∧ name = e.name ∧
        type = .union ((r.resolve members).map fun member => .reference member.name) := by
  cases hkind : e.kind with
  | rdfsClass =>
      rw [declarations_of_class hkind, declarationsOfClass, List.mem_append] at hd
      left
      refine ⟨rfl, ?_⟩
      rcases hd with henum | halias
      · rw [Entity.enumeration] at henum
        split at henum
        · cases henum
        · cases List.mem_singleton.mp henum
      · rcases List.mem_cons.mp halias with hbase | hpublic
        · cases hbase
          exact Or.inl rfl
        · cases List.mem_singleton.mp hpublic
          exact Or.inr rfl
  | builtin typeName doc =>
      rw [declarations, hkind] at hd
      cases List.mem_singleton.mp hd
      exact Or.inr (Or.inl ⟨typeName, doc, rfl, rfl⟩)
  | booleanEnum trueUrl falseUrl doc =>
      rw [declarations, hkind] at hd
      cases List.mem_singleton.mp hd
  | dataTypeUnion members doc =>
      rw [declarations, hkind] at hd
      cases List.mem_singleton.mp hd
      exact Or.inr (Or.inr ⟨members, doc, rfl, rfl, rfl⟩)

/-- A type without arms anywhere in it is that of a union without members. -/
theorem Issued.hasArms_or_bareUnion (h : r.Issued) (he : e ∈ r.entities)
    (hd : .typeAlias name comment type ∈ r.declarations o e) :
    type.Everywhere HasArms ∨
      type = .union [] ∧ e.name = name ∧ ∃ doc, e.kind = .dataTypeUnion [] doc := by
  rcases typeAlias_mem_declarations hd with ⟨_, rfl | rfl⟩ | ⟨typeName, doc, _, rfl⟩ |
    ⟨members, doc, hkind, rfl, rfl⟩
  · exact Or.inl (r.hasArms_baseShape o e)
  · exact Or.inl (r.hasArms_publicShape o e)
  · exact Or.inl (everywhere_reference.mpr (hasArms_reference typeName))
  · cases members with
    | nil => exact Or.inr ⟨rfl, rfl, doc, hkind⟩
    | cons member members =>
        left
        rcases mem_entities_iff.mp he with ⟨id, hid⟩
        have hmembers : ∀ id ∈ member :: members, id < r.size := by
          intro id hmember
          apply h.members_lt hid
          rw [hkind]
          exact hmember
        have hresolved := resolve_ne_nil hmembers (List.cons_ne_nil member members)
        simp [hresolved]

theorem bareUnion_mem_listing (he : e ∈ r.entities) {doc : String}
    (hkind : e.kind = .dataTypeUnion [] doc) :
    .typeAlias e.name (unlessEmpty doc) (.union []) ∈ (r.listing o).declarations := by
  refine List.mem_flatMap.mpr ⟨e, mem_entitiesInOrder_iff.mpr he, ?_⟩
  rw [declarations, hkind]
  exact List.mem_singleton.mpr rfl

end

/--
The types in a listing have arms in all their unions and intersections just if there is no
union of data types without members.  The alias of such a union is printed with nothing for
its type.  Every other alias has arms everywhere, and when the names that it refers to are
not empty, it is printed with a text in which every operator stands between two types.
-/
theorem aliases_printable_iff {r : Registry} (hr : r.Reachable) (o : Options) :
    ((∀ d ∈ (r.listing o).declarations, ∀ type, d.type? = some type →
        type.Everywhere HasArms) ↔
      ∀ e ∈ r.entities, ∀ doc, e.kind ≠ .dataTypeUnion [] doc) ∧
    ∀ name comment type, .typeAlias name comment type ∈ (r.listing o).declarations →
      (type = .union [] ∧
        (∃ e ∈ r.entities, e.name = name ∧ ∃ doc, e.kind = .dataTypeUnion [] doc) ∧
        (Declaration.typeAlias name comment type).layout =
          commentBlock? comment 0 ++ "export type " ++ name ++ " = " ++ "" ++ ";\n") ∨
      (type.Everywhere HasArms ∧
        ((∀ referred ∈ type.names, referred ≠ "") → ∃ text, text ≠ "" ∧ Phrase type.names text ∧
          (Declaration.typeAlias name comment type).layout =
            commentBlock? comment 0 ++ "export type " ++ name ++ " = " ++ text ++ ";\n")) := by
  have hissued := hr.wellFormed.issued
  have hcases {name : String} {comment : Option String} {type : TypeExpr}
      (hd : .typeAlias name comment type ∈ (r.listing o).declarations) :
      type.Everywhere HasArms ∨ type = .union [] ∧
        ∃ e ∈ r.entities, e.name = name ∧ ∃ doc, e.kind = .dataTypeUnion [] doc := by
    rcases List.mem_flatMap.mp hd with ⟨e, he, hmem⟩
    have he := mem_entitiesInOrder_iff.mp he
    rcases hissued.hasArms_or_bareUnion he hmem with harms | ⟨hempty, hbare⟩
    · exact Or.inl harms
    · exact Or.inr ⟨hempty, e, he, hbare⟩
  refine ⟨⟨?_, ?_⟩, ?_⟩
  · intro harms e he doc hkind
    have hunion := harms _ (bareUnion_mem_listing he hkind) _ rfl
    exact absurd rfl (hasArms_union_iff.mp hunion.here)
  · intro hmembers d hd type htype
    cases d with
    | enumeration name comment members => cases htype
    | typeAlias name comment inner =>
        cases htype
        rcases hcases hd with harms | ⟨_, e, he, _, doc, hkind⟩
        · exact harms
        · exact absurd hkind (hmembers e he doc)
  · intro name comment type hd
    rcases hcases hd with harms | ⟨rfl, hbare⟩
    · right
      refine ⟨harms, ?_⟩
      intro hnames
      have hphrase : Phrase type.names (type.layout 0) :=
        phrase_layout harms (fun referred hmem => ⟨hmem, hnames referred hmem⟩) 0
      exact ⟨type.layout 0, hphrase.ne_empty, hphrase, rfl⟩
    · exact Or.inl ⟨rfl, hbare, rfl⟩

theorem aliases_of_genre_printable :
    genreRegistry.Reachable ∧
      (∀ d ∈ (genreRegistry.listing .standard).declarations, ∀ type, d.type? = some type →
        type.Everywhere HasArms) ∧
      ∃ text, text ≠ "" ∧ Phrase ["Label"] text ∧
        (Declaration.typeAlias "Value" none (.union [.reference "Label"])).layout =
          "export type Value = " ++ text ++ ";\n" := by
  have hr : genreRegistry.Reachable := ⟨genreCalls, rfl⟩
  have hkinds : genreRegistry.entities.map Entity.kind =
      [.builtin "string" "", .dataTypeUnion [0] "", .rdfsClass, .rdfsClass] := by
    cbv
  have hmembers : ∀ e ∈ genreRegistry.entities, ∀ doc, e.kind ≠ .dataTypeUnion [] doc := by
    intro e he doc hkind
    have hmem := List.mem_map_of_mem he (f := Entity.kind)
    rw [hkinds, hkind] at hmem
    simp at hmem
  have hvalue : .typeAlias "Value" none (.union [.reference "Label"]) ∈
      (genreRegistry.listing .standard).declarations := by
    have hunion : (genreRegistry.entity? 1).map (fun e =>
        genreRegistry.declarations .standard e) =
          some [.typeAlias "Value" none (.union [.reference "Label"])] := by
      cbv
    rcases Option.map_eq_some_iff.mp hunion with ⟨union, hissued, hdeclared⟩
    refine List.mem_flatMap.mpr
      ⟨union, mem_entitiesInOrder_iff.mpr (mem_entities_iff.mpr ⟨1, hissued⟩), ?_⟩
    rw [hdeclared]
    exact List.mem_singleton.mpr rfl
  rcases aliases_printable_iff hr .standard with ⟨hiff, haliases⟩
  refine ⟨hr, hiff.mpr hmembers, ?_⟩
  rcases haliases _ _ _ hvalue with ⟨hbare, _⟩ | ⟨_, hprinted⟩
  · cases hbare
  · exact hprinted (by decide)

/-- A union of data types that was given no members. -/
def bareUnion : Registry :=
  empty.run [.insertDataTypeUnion "https://schema.org/DataType" [] ""]

theorem bareUnion_unprintable :
    bareUnion.Reachable ∧
      (bareUnion.listing .standard).render =
        "// Generated by typegraph. Do not edit.\n\nexport type DataType = ;\n" ∧
      ∃ d ∈ (bareUnion.listing .standard).declarations, ∃ type, d.type? = some type ∧
        type.names = [] ∧ ¬ type.Everywhere HasArms ∧ type.layout 0 = "" := by
  have hlisting : (bareUnion.listing .standard).declarations =
      [.typeAlias "DataType" none (.union [])] := by
    cbv
  refine ⟨⟨_, rfl⟩, ?_, .typeAlias "DataType" none (.union []), ?_, .union [], rfl, rfl, ?_, rfl⟩
  · rw [Listing.render, hlisting]
    rfl
  · rw [hlisting]
    exact List.mem_singleton.mpr rfl
  · decide

end Registry
end VocabTypes
