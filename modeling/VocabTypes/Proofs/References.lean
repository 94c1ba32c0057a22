import VocabTypes.Proofs.Arms
import VocabTypes.Proofs.DeclaredNames
import VocabTypes.Proofs.Factors

/-!
# References

## The names that a listing refers to

The types of a listing refer to one another by name.  A name that stands for a parent, a
child, a member, an enumeration or the base type of the class itself is declared in the
same listing.  The other names come from outside: from a data type's equivalent, from the
ranges of a property, or from the identifier and the strings that the generator adds.
-/

namespace VocabTypes

/-!
# Names in a type
-/

mutual

/-- The names that a type refers to, in the order in which they stand in it. -/
def TypeExpr.names : TypeExpr → List String
  | .reference name => [name]
  | .literal _ => []
  | .union arms => TypeExpr.allNames arms
  | .intersection arms => TypeExpr.allNames arms
  | .parenthesized inner => inner.names
  | .record fields => Field.allNames fields

def TypeExpr.allNames : List TypeExpr → List String
  | [] => []
  | type :: types => type.names ++ TypeExpr.allNames types

def Field.names : Field → List String
  | ⟨_, _, type, _⟩ => type.names

def Field.allNames : List Field → List String
  | [] => []
  | field :: fields => field.names ++ Field.allNames fields

end

namespace TypeExpr

@[simp] theorem names_reference (name : String) : (reference name).names = [name] :=
  rfl

@[simp] theorem names_union (arms : List TypeExpr) : (union arms).names = allNames arms :=
  rfl

@[simp] theorem names_intersection (arms : List TypeExpr) :
    (intersection arms).names = allNames arms :=
  rfl

@[simp] theorem names_parenthesized (inner : TypeExpr) :
    (parenthesized inner).names = inner.names :=
  rfl

@[simp] theorem names_record (fields : List Field) :
    (record fields).names = Field.allNames fields :=
  rfl

theorem allNames_references (names : List String) : allNames (names.map reference) = names := by
  induction names with
  | nil => rfl
  | cons name names ih =>
      rw [List.map_cons, allNames, ih]
      rfl

/-- The names in a type that may be missing. -/
def namesOf? (type? : Option TypeExpr) : List String :=
  (type?.map names).getD []

theorem names_both (first second : Option TypeExpr) :
    (both first second).names = namesOf? first ++ namesOf? second := by
  cases first with
  | none =>
      cases second with
      | none => rfl
      | some only => rfl
  | some type =>
      cases second with
      | none => simp [both, namesOf?]
      | some other => simp [both, namesOf?, allNames]

end TypeExpr

theorem Field.allNames_eq_flatMap (fields : List Field) :
    Field.allNames fields = fields.flatMap Field.names := by
  induction fields with
  | nil => rfl
  | cons field fields ih => rw [allNames, ih, List.flatMap_cons]

/-!
# Erasing repetitions

Of equal items that stand side by side one is kept.
-/

section

variable {α : Type} [BEq α]

theorem eraseRepsBy_loop_eq (a : α) (items kept : List α) :
    List.eraseRepsBy.loop (· == ·) a items kept = kept.reverse ++ (a :: items).eraseReps := by
  have hstart : ∀ b : α, ∀ items : List α,
      (b :: items).eraseReps = List.eraseRepsBy.loop (· == ·) b items [] := fun _ _ => rfl
  induction items generalizing a kept with
  | nil => simp [hstart, List.eraseRepsBy.loop]
  | cons b items ih =>
      rw [hstart, List.eraseRepsBy.loop, List.eraseRepsBy.loop]
      cases a == b with
      | true => simp [ih]
      | false => simp [ih]

theorem eraseReps_cons_cons (a b : α) (items : List α) :
    (a :: b :: items).eraseReps =
      if a == b then (a :: items).eraseReps else a :: (b :: items).eraseReps := by
  rw [List.eraseReps, List.eraseRepsBy, List.eraseRepsBy.loop]
  cases a == b with
  | true => rfl
  | false => exact eraseRepsBy_loop_eq b items [a]

/-- Leaving out repetitions loses no item. -/
theorem mem_eraseReps_iff [LawfulBEq α] {x : α} {items : List α} :
    x ∈ items.eraseReps ↔ x ∈ items := by
  cases items with
  | nil => rfl
  | cons first items =>
      induction items generalizing first with
      | nil => rfl
      | cons second items ih =>
          rw [eraseReps_cons_cons]
          split
          · next hsame =>
              rw [ih, eq_of_beq hsame]
              simp
          · rw [List.mem_cons, ih, List.mem_cons, List.mem_cons, List.mem_cons]

end

/-!
# Names in the types of an entity
-/

theorem Property.mem_distinctRanges_iff {p : Property} {range : Identifier} :
    range ∈ p.distinctRanges ↔ range ∈ p.ranges := by
  rw [distinctRanges, mem_eraseReps_iff, (Identifier.sortOn_perm _ _).mem_iff]

theorem Property.distinctRanges_eq_nil_iff {p : Property} :
    p.distinctRanges = [] ↔ p.ranges = [] := by
  simp only [List.eq_nil_iff_forall_not_mem, mem_distinctRanges_iff]

/-- The values of a property are named by its ranges, or by nothing at all. -/
theorem Property.names_valueType (p : Property) :
    p.valueType.names =
      if p.distinctRanges = [] then ["never"] else p.distinctRanges.map Identifier.name := by
  unfold valueType
  cases p.distinctRanges with
  | nil => rfl
  | cons range ranges =>
      cases ranges with
      | nil => rfl
      | cons second ranges =>
          have hnames := TypeExpr.allNames_references
            ((range :: second :: ranges).map Identifier.name)
          rw [List.map_map] at hnames
          exact hnames

namespace Entity

theorem namesOf?_ownRecord? (o : Options) (e : Entity) :
    TypeExpr.namesOf? (e.ownRecord? o) = (e.ownFields o).flatMap Field.names := by
  rw [ownRecord?, ← Field.allNames_eq_flatMap]
  cases e.ownFields o with
  | nil => rfl
  | cons field fields => rfl

end Entity

namespace Registry

theorem namesOf?_parentBase? (r : Registry) (e : Entity) :
    TypeExpr.namesOf? (r.parentBase? e) = (r.resolve e.parents).map Entity.nameOfBase := by
  unfold parentBase?
  cases r.resolve e.parents with
  | nil => rfl
  | cons parent parents =>
      cases parents with
      | nil => rfl
      | cons second parents =>
          have hnames := TypeExpr.allNames_references
            ((parent :: second :: parents).map Entity.nameOfBase)
          rw [List.map_map] at hnames
          exact hnames

theorem names_baseShape (r : Registry) (o : Options) (e : Entity) :
    (r.baseShape o e).names =
      (r.resolve e.parents).map Entity.nameOfBase ++ (e.ownFields o).flatMap Field.names := by
  rw [baseShape, TypeExpr.names_both, namesOf?_parentBase?, Entity.namesOf?_ownRecord?]

theorem names_directShape (r : Registry) (o : Options) (e : Entity) :
    (r.directShape o e).names = [e.nameOfBase] := by
  unfold directShape
  cases r.extendsBuiltin e with
  | true => rfl
  | false => rfl

/-- What a public type refers to besides the class itself. -/
def otherNames (r : Registry) (e : Entity) : List String :=
  (r.childrenInOrder e).map Entity.name ++ if r.admitsString e then ["string"] else []

theorem otherArms_eq_map_otherNames (r : Registry) (e : Entity) :
    r.otherArms e = (r.otherNames e).map TypeExpr.reference := by
  rw [otherArms, otherNames, List.map_append, List.map_map]
  cases r.admitsString e with
  | true => rfl
  | false => rfl

theorem names_instanceShape (r : Registry) (o : Options) (e : Entity) :
    (r.instanceShape o e).names = e.nameOfBase :: r.otherNames e := by
  have hdirect := r.names_directShape o e
  unfold instanceShape
  rw [otherArms_eq_map_otherNames]
  cases r.otherNames e with
  | nil => exact hdirect
  | cons name names =>
      cases names with
      | nil => simp [TypeExpr.allNames, hdirect]
      | cons second names =>
          simp [TypeExpr.allNames, hdirect, TypeExpr.allNames_references]

theorem names_publicShape (r : Registry) (o : Options) (e : Entity) :
    (r.publicShape o e).names =
      (if e.enumValues = [] then [] else [e.nameOfEnum]) ++ e.nameOfBase :: r.otherNames e := by
  unfold publicShape
  cases e.enumValues with
  | nil => exact r.names_instanceShape o e
  | cons value values => simp [TypeExpr.allNames, r.names_instanceShape o e]

end Registry

/-!
# Declared and borrowed names
-/

/-- A listing has a declaration of this name. -/
def Listing.Declares (listing : Listing) (name : String) : Prop :=
  ∃ d ∈ listing.declarations, d.name = name

namespace Registry

/-- A name in a declaration of an entity that the listing does not have to declare. -/
inductive Borrowed (r : Registry) (o : Options) (e : Entity) : Declaration → String → Prop where
  | identifier (kind : e.kind = .rdfsClass) (root : e.parents = []) :
      Borrowed r o e (.typeAlias e.nameOfBase none (r.baseShape o e)) "string"
  | noRange {p : Property} (kind : e.kind = .rdfsClass) (property : p ∈ e.properties)
      (kept : p.isKept o = true) (ranges : p.ranges = []) :
      Borrowed r o e (.typeAlias e.nameOfBase none (r.baseShape o e)) "never"
  | range {p : Property} {range : Identifier} (kind : e.kind = .rdfsClass)
      (property : p ∈ e.properties) (kept : p.isKept o = true) (mem : range ∈ p.ranges) :
      Borrowed r o e (.typeAlias e.nameOfBase none (r.baseShape o e)) range.name
  | bareString (kind : e.kind = .rdfsClass) (admitted : r.admitsString e = true) :
      Borrowed r o e (.typeAlias e.name (r.documentation e) (r.publicShape o e)) "string"
  | equivalent {typeName doc : String} (kind : e.kind = .builtin typeName doc) :
      Borrowed r o e (.typeAlias e.name (unlessEmpty doc) (.reference typeName)) typeName

theorem mem_entities_of_mem_resolve {r : Registry} {e : Entity} {ids : List EntityId}
    (h : e ∈ r.resolve ids) : e ∈ r.entities := by
  rcases List.mem_filterMap.mp h with ⟨id, _, he⟩
  exact mem_entities_iff.mpr ⟨id, he⟩

section

variable {r : Registry} {o : Options} {e : Entity}

theorem declares_iff {name : String} :
    (r.listing o).Declares name ↔ ∃ e ∈ r.entities, name ∈ e.declaredNames := by
  constructor
  · intro hdeclared
    rcases hdeclared with ⟨d, hd, rfl⟩
    rcases List.mem_flatMap.mp hd with ⟨e, he, hmem⟩
    refine ⟨e, mem_entitiesInOrder_iff.mp he, ?_⟩
    rw [← map_name_declarations r o]
    exact List.mem_map_of_mem hmem
  · intro hdeclared
    rcases hdeclared with ⟨e, he, hname⟩
    rw [← map_name_declarations r o] at hname
    rcases List.mem_map.mp hname with ⟨d, hd, hsame⟩
    exact ⟨d, List.mem_flatMap.mpr ⟨e, mem_entitiesInOrder_iff.mpr he, hd⟩, hsame⟩

theorem declares_name (he : e ∈ r.entities) : (r.listing o).Declares e.name :=
  declares_iff.mpr ⟨e, he, e.name_mem_declaredNames⟩

/-- The base type of a class has a declaration of its own, and a data type is its own base. -/
theorem declares_nameOfBase (he : e ∈ r.entities) : (r.listing o).Declares e.nameOfBase := by
  cases hkind : e.kind.isBuiltin with
  | true =>
      rw [Entity.nameOfBase_of_builtin hkind]
      exact declares_name he
  | false =>
      have hclass := Kind.isBuiltin_eq_false_iff.mp hkind
      exact declares_iff.mpr ⟨e, he, Entity.nameOfBase_mem_declaredNames hclass⟩

/-- The enumeration of an entity is declared exactly when the entity has values. -/
theorem enumeration_mem_declarations_iff (hclass : e.kind = .rdfsClass) :
    (∃ comment members, .enumeration e.nameOfEnum comment members ∈ r.declarations o e) ↔
      e.enumValues ≠ [] := by
  have hvalues : e.enumValues ≠ [] ↔ e.enumValuesInOrder ≠ [] :=
    not_congr Entity.enumValuesInOrder_eq_nil_iff.symm
  rw [declarations_of_class hclass, declarationsOfClass, Entity.enumeration, hvalues]
  cases e.enumValuesInOrder with
  | nil => simp
  | cons value values => simp

/-!
# The parts of each declaration
-/

theorem borrowed_of_field (hclass : e.kind = .rdfsClass) {name : String}
    (hname : name ∈ (e.ownFields o).flatMap Field.names) :
    Borrowed r o e (.typeAlias e.nameOfBase none (r.baseShape o e)) name := by
  rcases List.mem_flatMap.mp hname with ⟨field, hfield, hmem⟩
  rcases Entity.mem_ownFields_iff.mp hfield with ⟨hroot, rfl⟩ | ⟨p, hp, hkept, rfl⟩
  · rw [List.mem_singleton.mp hmem]
    exact Borrowed.identifier hclass hroot
  · have hvalue : name ∈ p.valueType.names := hmem
    rw [Property.names_valueType] at hvalue
    split at hvalue
    · next hnone =>
        rw [List.mem_singleton.mp hvalue]
        exact Borrowed.noRange hclass hp hkept (Property.distinctRanges_eq_nil_iff.mp hnone)
    · rcases List.mem_map.mp hvalue with ⟨range, hrange, rfl⟩
      exact Borrowed.range hclass hp hkept (Property.mem_distinctRanges_iff.mp hrange)

/-- The names in a type come in two parts: names of the listing, and borrowed ones. -/
def Splits (r : Registry) (o : Options) (e : Entity) (d : Declaration) (type : TypeExpr) : Prop :=
  ∃ linked borrowed, type.names = linked ++ borrowed ∧
    (∀ name ∈ linked, (r.listing o).Declares name) ∧ ∀ name ∈ borrowed, r.Borrowed o e d name

theorem splits_baseShape (hclass : e.kind = .rdfsClass) :
    r.Splits o e (.typeAlias e.nameOfBase none (r.baseShape o e)) (r.baseShape o e) := by
  refine ⟨_, _, r.names_baseShape o e, ?_, ?_⟩
  · intro name hname
    rcases List.mem_map.mp hname with ⟨parent, hparent, rfl⟩
    exact declares_nameOfBase (mem_entities_of_mem_resolve hparent)
  · intro name hname
    exact borrowed_of_field hclass hname

theorem splits_publicShape (he : e ∈ r.entities) (hclass : e.kind = .rdfsClass) :
    r.Splits o e (.typeAlias e.name (r.documentation e) (r.publicShape o e))
      (r.publicShape o e) := by
  refine ⟨(if e.enumValues = [] then [] else [e.nameOfEnum]) ++ e.nameOfBase ::
      (r.childrenInOrder e).map Entity.name,
    if r.admitsString e then ["string"] else [], ?_, ?_, ?_⟩
  · rw [names_publicShape, otherNames, List.append_assoc, List.cons_append]
  · intro name hname
    rcases List.mem_append.mp hname with henum | hrest
    · split at henum
      · cases henum
      · next hvalues =>
          rw [List.mem_singleton.mp henum]
          exact declares_iff.mpr ⟨e, he, Entity.nameOfEnum_mem_declaredNames hclass hvalues⟩
    · rcases List.mem_cons.mp hrest with rfl | hchild
      · exact declares_nameOfBase he
      · rcases List.mem_map.mp hchild with ⟨child, hmem, rfl⟩
        rcases mem_childrenInOrder_iff.mp hmem with ⟨id, _, hid⟩
        exact declares_name (mem_entities_iff.mpr ⟨id, hid⟩)
  · intro name hname
    split at hname
    · next hadmits =>
        rw [List.mem_singleton.mp hname]
        exact Borrowed.bareString hclass hadmits
    · cases hname

/-- All names in the declarations of an entity are declared or borrowed. -/
theorem splits_of_mem_declarations (he : e ∈ r.entities) {d : Declaration} {type : TypeExpr}
    (hd : d ∈ r.declarations o e) (htype : d.type? = some type) : r.Splits o e d type := by
  cases hkind : e.kind with
  | rdfsClass =>
      rw [declarations_of_class hkind, declarationsOfClass] at hd
      rcases List.mem_append.mp hd with henum | halias
      · rw [Entity.enumeration] at henum
        split at henum
        · cases henum
        · rw [List.mem_singleton.mp henum] at htype
          cases htype
      · rcases List.mem_cons.mp halias with rfl | hpublic
        · cases htype
          exact splits_baseShape hkind
        · rw [List.mem_singleton.mp hpublic] at htype ⊢
          cases htype
          exact splits_publicShape he hkind
  | builtin typeName doc =>
      rw [declarations, hkind] at hd
      rw [List.mem_singleton.mp hd] at htype ⊢
      cases htype
      refine ⟨[], [typeName], rfl, ?_, ?_⟩
      · intro name hname
        cases hname
      · intro name hname
        rw [List.mem_singleton.mp hname]
        exact Borrowed.equivalent hkind
  | booleanEnum trueUrl falseUrl doc =>
      rw [declarations, hkind] at hd
      rw [List.mem_singleton.mp hd] at htype
      cases htype
  | dataTypeUnion members doc =>
      rw [declarations, hkind] at hd
      rw [List.mem_singleton.mp hd] at htype ⊢
      cases htype
      refine ⟨(r.resolve members).map Entity.name, [], ?_, ?_, ?_⟩
      · have hnames := TypeExpr.allNames_references ((r.resolve members).map Entity.name)
        rw [List.map_map] at hnames
        rw [List.append_nil]
        exact hnames
      · intro name hname
        rcases List.mem_map.mp hname with ⟨member, hmember, rfl⟩
        exact declares_name (mem_entities_of_mem_resolve hmember)
      · intro name hname
        cases hname

/-- Only the enumeration comes before the base type, and never under the same name. -/
theorem head?_names_publicShape (hclass : e.kind = .rdfsClass) :
    (r.publicShape o e).names.head? = some e.nameOfEnum ↔ e.enumValues ≠ [] := by
  rw [names_publicShape]
  split
  · next hnone =>
      have hbase : e.nameOfBase ≠ e.nameOfEnum := by
        rw [Entity.nameOfBase_of_class hclass, Entity.nameOfEnum]
        exact fun hsame => absurd (String.append_right_inj _ |>.mp hsame) (by decide)
      simp [hnone, hbase]
  · next hvalues => simp [hvalues]

end

/--
A listing declares all names that its types refer to, except for the names that it borrows:
the bare string of an identifier or of a class that admits strings, the name for no range,
the ranges of a kept property and the equivalent of a data type.  Whatever an entity is
linked to is declared, and so is its base.  The public type of a class refers to the
enumeration of the class, and does so first, exactly when the enumeration is declared.
-/
theorem references_resolve {r : Registry} (hr : r.Reachable) (o : Options) :
    (∀ d ∈ (r.listing o).declarations, ∃ e ∈ r.entities, d ∈ r.declarations o e ∧
      ∀ type, d.type? = some type → ∃ linked borrowed, type.names = linked ++ borrowed ∧
        (∀ name ∈ linked, (r.listing o).Declares name) ∧
        ∀ name ∈ borrowed, r.Borrowed o e d name) ∧
    ∀ id e, r.entity? id = some e →
      (∀ link ∈ id :: e.links, ∃ f, r.entity? link = some f ∧
        (r.listing o).Declares f.name ∧ (r.listing o).Declares f.nameOfBase) ∧
      (e.kind = .rdfsClass →
        (r.publicShape o e).names =
          (if e.enumValues = [] then [] else [e.nameOfEnum]) ++
            e.nameOfBase :: r.otherNames e ∧
        ((r.publicShape o e).names.head? = some e.nameOfEnum ↔
          ∃ comment members,
            .enumeration e.nameOfEnum comment members ∈ r.declarations o e)) := by
  have h := hr.wellFormed
  constructor
  · intro d hd
    rcases List.mem_flatMap.mp hd with ⟨e, he, hmem⟩
    have hentity := mem_entitiesInOrder_iff.mp he
    refine ⟨e, hentity, hmem, ?_⟩
    intro type htype
    exact splits_of_mem_declarations hentity hmem htype
  · intro id e he
    constructor
    · intro link hlink
      have hissued : link < r.size := by
        rcases List.mem_cons.mp hlink with rfl | hlink
        · exact (r.lt_size_iff link).mpr ⟨e, he⟩
        · exact h.issued id e he link hlink
      rcases (r.lt_size_iff link).mp hissued with ⟨f, hf⟩
      have hmem := mem_entities_iff.mpr ⟨link, hf⟩
      exact ⟨f, hf, declares_name hmem, declares_nameOfBase hmem⟩
    · intro hclass
      refine ⟨r.names_publicShape o e, ?_⟩
      rw [head?_names_publicShape hclass, enumeration_mem_declarations_iff hclass]

/-- Calls that put a class with values below another class and below a data type. -/
def genreCalls : List Call :=
  [.insertBuiltin "s/Label" "string" "",
    .insertDataTypeUnion "s/Value" [0] "",
    .insertClass ⟨"Term", "s:Term"⟩ true,
    .insertClass ⟨"Genre", "s:Genre"⟩ false,
    .assert 3 (Statement.subclassOf ⟨"Term", "s:Term"⟩).toFact,
    .assert 3 (Statement.subclassOf ⟨"Label", "s/Label"⟩).toFact,
    .addProperty 3 ⟨⟨"near", "s:near"⟩, [], none, false⟩,
    .addEnumValue 3 ⟨⟨"Essay", "s:Essay"⟩, none⟩]

def genreRegistry : Registry :=
  empty.run genreCalls

theorem references_of_genre :
    genreRegistry.Reachable ∧
      (∀ link ∈ [2, 0], ∃ f, genreRegistry.entity? link = some f ∧
        (genreRegistry.listing .standard).Declares f.nameOfBase) ∧
      ∃ genre, genreRegistry.entity? 3 = some genre ∧
        (genreRegistry.publicShape .standard genre).names =
          ["GenreEnum", "GenreBase", "string"] ∧
        ∃ comment members, .enumeration "GenreEnum" comment members ∈
          genreRegistry.declarations .standard genre := by
  have hr : genreRegistry.Reachable := ⟨genreCalls, rfl⟩
  have hgenre : genreRegistry.entity? 3 =
      some { subject := ⟨"Genre", "s:Genre"⟩, kind := .rdfsClass, allowString := false,
             comment := none, parents := [2, 0], children := [], replacements := [],
             properties := [⟨⟨"near", "s:near"⟩, [], none, false⟩],
             enumValues := [⟨⟨"Essay", "s:Essay"⟩, none⟩] } := by
    cbv
  rcases (references_resolve hr .standard).right 3 _ hgenre with ⟨hlinks, hclass⟩
  rcases hclass rfl with ⟨hnames, henum⟩
  refine ⟨hr, ?_, _, hgenre, ?_, ?_⟩
  · intro link hlink
    rcases hlinks link (List.mem_cons_of_mem 3 (by simpa [Entity.links, Kind.members] using hlink))
      with ⟨f, hf, _, hbase⟩
    exact ⟨f, hf, hbase⟩
  · rw [hnames]
    cbv
  · apply henum.mp
    rw [hnames]
    rfl

end Registry
end VocabTypes
