import VocabTypes.Proofs.DeclaredNames
import VocabTypes.Proofs.GlobalOrder
import VocabTypes.Proofs.StableSort

/-!
# Sorted views

## What is shown of properties and values

Properties and values are kept in the order in which they were added and shown in the order
of their identifiers.  Those that share an identifier are shown in the order in which they
were added, so what is added next is shown behind all that it could be mistaken for, and
nothing else moves.  An enumeration is printed from what is shown, with a member for each value.
-/

namespace VocabTypes

namespace Identifier

variable {α : Type} {key : α → Identifier}

/-!
# Views of a list
-/

/--
A list shows the items of another one in the order of their identifiers, and items that share
one in the order in which they were.
-/
structure IsView (key : α → Identifier) (items view : List α) : Prop where
  perm : view.Perm items
  ordered : view.Pairwise fun a b => ¬ (key b).Precedes (key a)
  stable : ∀ id, itemsWith key id view = itemsWith key id items

theorem isLE_iff_not_precedes {a b : Identifier} :
    (compare a b).isLE = true ↔ ¬ b.Precedes a := by
  have hswap : compare a b = (compare b a).swap := Std.OrientedCmp.eq_swap
  rw [← compare_eq_lt_iff, hswap]
  cases compare b a <;> simp

theorem sortedOn_iff {items : List α} :
    SortedOn key items ↔ items.Pairwise fun a b => ¬ (key b).Precedes (key a) := by
  simp only [SortedOn, isLE_iff_not_precedes]

/-- A list has one view, which is what sorting gives. -/
theorem isView_iff {items view : List α} :
    IsView key items view ↔ view = sortOn key items := by
  constructor
  · intro hview
    exact eq_sortOn_iff.mpr ⟨sortedOn_iff.mpr hview.ordered, hview.stable⟩
  · rintro rfl
    exact ⟨sortOn_perm key items, sortedOn_iff.mp (sortedOn_sortOn key items),
      fun id => itemsWith_sortOn key id items⟩

theorem sortOn_sortOn (items : List α) : sortOn key (sortOn key items) = sortOn key items := by
  symm
  rw [eq_sortOn_iff]
  exact ⟨sortedOn_sortOn key items, fun _ => rfl⟩

/-!
# One item more
-/

theorem itemsWith_append (id : Identifier) (items others : List α) :
    itemsWith key id (items ++ others) = itemsWith key id items ++ itemsWith key id others :=
  List.filter_append items others

theorem itemsWith_eq_nil {id : Identifier} {items : List α} (h : ∀ item ∈ items, key item ≠ id) :
    itemsWith key id items = [] := by
  apply List.filter_eq_nil_iff.mpr
  intro item hitem
  simpa using h item hitem

theorem itemsWith_swap {a b : α} (h : key a ≠ key b) (id : Identifier) (items : List α) :
    itemsWith key id (a :: b :: items) = itemsWith key id (b :: a :: items) := by
  by_cases ha : key a = id
  · have hb : key b ≠ id := fun hb => h (ha.trans hb.symm)
    subst ha
    rw [itemsWith_cons_self, itemsWith_cons_of_ne hb, itemsWith_cons_of_ne hb,
      itemsWith_cons_self]
  · rw [itemsWith_cons_of_ne ha]
    by_cases hb : key b = id
    · subst hb
      rw [itemsWith_cons_self, itemsWith_cons_self, itemsWith_cons_of_ne ha]
    · rw [itemsWith_cons_of_ne hb, itemsWith_cons_of_ne hb, itemsWith_cons_of_ne ha]

/-- A sorted list falls into what comes before an identifier or has it, and what comes after. -/
theorem SortedOn.split {items : List α} (h : SortedOn key items) (id : Identifier) :
    ∃ before after, items = before ++ after ∧
      (∀ item ∈ before, (compare (key item) id).isLE = true) ∧
      ∀ item ∈ after, id.Precedes (key item) := by
  induction items with
  | nil => exact ⟨[], [], rfl, by simp, by simp⟩
  | cons first items ih =>
      rcases List.pairwise_cons.mp h with ⟨hleast, hrest⟩
      by_cases hfirst : (compare (key first) id).isLE = true
      · rcases ih hrest with ⟨before, after, rfl, hbefore, hafter⟩
        exact ⟨first :: before, after, rfl, List.forall_mem_cons.mpr ⟨hfirst, hbefore⟩, hafter⟩
      · rw [isLE_iff_not_precedes, not_not] at hfirst
        refine ⟨[], first :: items, rfl, by simp, List.forall_mem_cons.mpr ⟨hfirst, ?_⟩⟩
        intro item hitem
        exact compare_eq_lt_iff.mp
          (Std.TransCmp.lt_of_lt_of_isLE (compare_eq_lt_iff.mpr hfirst) (hleast item hitem))

theorem SortedOn.insert {before after : List α} {new : α} (h : SortedOn key (before ++ after))
    (hbefore : ∀ item ∈ before, (compare (key item) (key new)).isLE = true)
    (hafter : ∀ item ∈ after, (key new).Precedes (key item)) :
    SortedOn key (before ++ new :: after) := by
  rw [SortedOn, List.pairwise_append] at h
  rw [SortedOn, List.pairwise_append, List.pairwise_cons]
  refine ⟨h.1, ⟨?_, h.2.1⟩, ?_⟩
  · intro item hitem
    rw [compare_eq_lt_iff.mpr (hafter item hitem)]
    rfl
  · intro item hitem other hother
    rcases List.mem_cons.mp hother with rfl | hlater
    · exact hbefore item hitem
    · exact h.2.2 item hitem other hlater

/-- An item before others with later identifiers is the last one with its own. -/
theorem itemsWith_insert (id : Identifier) (before : List α) {after : List α} {new : α}
    (hafter : ∀ item ∈ after, (key new).Precedes (key item)) :
    itemsWith key id (before ++ new :: after) =
      itemsWith key id (before ++ after) ++ itemsWith key id [new] := by
  rw [← List.singleton_append, itemsWith_append, itemsWith_append, itemsWith_append,
    List.append_assoc]
  by_cases hid : key new = id
  · have hnone : itemsWith key id after = [] := by
      apply itemsWith_eq_nil
      intro item hitem hsame
      have hself := hafter item hitem
      rw [hid, hsame] at hself
      exact hself.asymm hself
    rw [hnone, List.append_nil, List.nil_append]
  · have hnone : itemsWith key id [new] = [] :=
      itemsWith_eq_nil (by simpa using hid)
    rw [hnone, List.append_nil, List.nil_append]

/-- What is added at the end is shown after all that does not come after it. -/
theorem sortOn_concat (items : List α) (new : α) :
    ∃ before after, sortOn key items = before ++ after ∧
      sortOn key (items ++ [new]) = before ++ new :: after ∧
      (∀ item ∈ before, ¬ (key new).Precedes (key item)) ∧
      ∀ item ∈ after, (key new).Precedes (key item) := by
  have hsorted := sortedOn_sortOn key items
  rcases hsorted.split (key new) with ⟨before, after, hview, hbefore, hafter⟩
  rw [hview] at hsorted
  have hinserted : before ++ new :: after = sortOn key (items ++ [new]) := by
    rw [eq_sortOn_iff]
    refine ⟨hsorted.insert hbefore hafter, fun id => ?_⟩
    rw [itemsWith_insert id before hafter, ← hview, itemsWith_sortOn, itemsWith_append]
  exact ⟨before, after, hview, hinserted.symm,
    fun item hitem => isLE_iff_not_precedes.mp (hbefore item hitem), hafter⟩

/-- A way to show lists: each has one view, a view shows itself, and one item more moves nothing. -/
structure ShowsSorted (key : α → Identifier) (view : List α → List α) : Prop where
  isView_iff : ∀ items shown, IsView key items shown ↔ shown = view items
  view_view : ∀ items, view (view items) = view items
  view_concat : ∀ items new, ∃ before after, view items = before ++ after ∧
    view (items ++ [new]) = before ++ new :: after ∧
    (∀ item ∈ before, ¬ (key new).Precedes (key item)) ∧
    ∀ item ∈ after, (key new).Precedes (key item)

theorem showsSorted_sortOn (key : α → Identifier) : ShowsSorted key (sortOn key) where
  isView_iff := fun _ _ => isView_iff
  view_view := sortOn_sortOn
  view_concat := sortOn_concat

end Identifier

namespace Registry

/-!
# Members that are added
-/

theorem addProperty_of_entity? {r : Registry} {id : EntityId} {e : Entity}
    (he : r.entity? id = some e) (new : Property) :
    ∃ s, r.addProperty id new = .ok s ∧
      s.entity? id = some { e with properties := e.properties ++ [new] } := by
  refine ⟨_, if_pos ((r.lt_size_iff id).mpr ⟨e, he⟩), ?_⟩
  rw [entity?_modify, if_pos rfl, he]
  rfl

theorem addEnumValue_of_entity? {r : Registry} {id : EntityId} {e : Entity}
    (he : r.entity? id = some e) (new : EnumValue) :
    ∃ s, r.addEnumValue id new = .ok s ∧
      s.entity? id = some { e with enumValues := e.enumValues ++ [new] } := by
  refine ⟨_, if_pos ((r.lt_size_iff id).mpr ⟨e, he⟩), ?_⟩
  rw [entity?_modify, if_pos rfl, he]
  rfl

end Registry

/-!
# Enumerations
-/

namespace Entity

theorem showsSorted_properties (e : Entity) :
    Identifier.ShowsSorted Property.id fun properties =>
      ({ e with properties } : Entity).propertiesInOrder :=
  Identifier.showsSorted_sortOn Property.id

theorem showsSorted_enumValues (e : Entity) :
    Identifier.ShowsSorted EnumValue.id fun enumValues =>
      ({ e with enumValues } : Entity).enumValuesInOrder :=
  Identifier.showsSorted_sortOn EnumValue.id

theorem enumeration_of_nil {e : Entity} (h : e.enumValues = []) : e.enumeration = [] := by
  rw [enumeration, enumValuesInOrder_eq_nil_iff.mpr h]

theorem enumeration_of_values {e : Entity} (h : e.enumValues ≠ []) :
    e.enumeration =
      [.enumeration e.nameOfEnum none (e.enumValuesInOrder.map EnumValue.member)] := by
  rw [enumeration]
  split
  · next hnone => exact absurd (enumValuesInOrder_eq_nil_iff.mp hnone) h
  · rfl

end Entity

namespace Registry

theorem filter_isEnumeration_of_class (r : Registry) (o : Options) {e : Entity}
    (hclass : e.kind = .rdfsClass) :
    (r.declarations o e).filter Declaration.isEnumeration = e.enumeration := by
  rw [declarations_of_class hclass, declarationsOfClass]
  by_cases hvalues : e.enumValues = []
  · rw [Entity.enumeration_of_nil hvalues]
    rfl
  · rw [Entity.enumeration_of_values hvalues]
    rfl

theorem mem_listing_of_mem_declarations {r : Registry} {o : Options} {id : EntityId} {e : Entity}
    (he : r.entity? id = some e) {d : Declaration} (hd : d ∈ r.declarations o e) :
    d ∈ (r.listing o).declarations :=
  List.mem_flatMap.mpr ⟨e, mem_entitiesInOrder_iff.mpr (mem_entities_iff.mpr ⟨id, he⟩), hd⟩

/--
The sorted properties and the sorted values of an entity are the one view of those that were
added: the same ones, by name and IRI, in the order in which they were added where they have
the same identifier.  A view shows itself.  What a call adds is shown behind everything that
does not come after it, and the rest stays in its order.

So the one enumeration among the declarations of a class with values, which the listing has too,
has a member for each of its values, with its name, IRI and comment, in that order; and a class
without values has none.
-/
theorem sorted_views_lose_nothing {r : Registry} (o : Options) {id : EntityId} {e : Entity}
    (he : r.entity? id = some e) :
    (Identifier.IsView Property.id e.properties e.propertiesInOrder ∧
      Identifier.ShowsSorted Property.id fun properties =>
        ({ e with properties } : Entity).propertiesInOrder) ∧
    (Identifier.IsView EnumValue.id e.enumValues e.enumValuesInOrder ∧
      Identifier.ShowsSorted EnumValue.id fun enumValues =>
        ({ e with enumValues } : Entity).enumValuesInOrder) ∧
    (∀ new, ∃ s, r.addProperty id new = .ok s ∧
      s.entity? id = some { e with properties := e.properties ++ [new] }) ∧
    (∀ new, ∃ s, r.addEnumValue id new = .ok s ∧
      s.entity? id = some { e with enumValues := e.enumValues ++ [new] }) ∧
    (e.kind = .rdfsClass → e.enumValues = [] →
      (r.declarations o e).filter Declaration.isEnumeration = []) ∧
    (e.kind = .rdfsClass → e.enumValues ≠ [] → ∃ members : List EnumMember,
      members = e.enumValuesInOrder.map (fun v => ⟨v.id.name, v.id.href, v.comment⟩) ∧
      members.Perm (e.enumValues.map fun v => ⟨v.id.name, v.id.href, v.comment⟩) ∧
      (r.declarations o e).filter Declaration.isEnumeration =
        [.enumeration e.nameOfEnum none members] ∧
      .enumeration e.nameOfEnum none members ∈ (r.listing o).declarations) := by
  refine ⟨⟨Identifier.isView_iff.mpr rfl, e.showsSorted_properties⟩,
    ⟨Identifier.isView_iff.mpr rfl, e.showsSorted_enumValues⟩, addProperty_of_entity? he,
    addEnumValue_of_entity? he, ?_, ?_⟩
  · intro hclass hnone
    rw [r.filter_isEnumeration_of_class o hclass, Entity.enumeration_of_nil hnone]
  · intro hclass hvalues
    have hfilter := r.filter_isEnumeration_of_class o hclass
    rw [Entity.enumeration_of_values hvalues] at hfilter
    have hdeclared : .enumeration e.nameOfEnum none (e.enumValuesInOrder.map EnumValue.member) ∈
        (r.declarations o e).filter Declaration.isEnumeration := by
      rw [hfilter]
      exact List.mem_singleton_self _
    exact ⟨_, rfl, (Identifier.sortOn_perm EnumValue.id e.enumValues).map _, hfilter,
      mem_listing_of_mem_declarations he (List.mem_filter.mp hdeclared).1⟩

/-- A class with two notes under one identifier, and with a value that is listed twice. -/
def weekShelf : Registry :=
  empty.run
    [.insertClass ⟨"Day", "s:Day"⟩ false,
      .addProperty 0 ⟨⟨"note", "s:note"⟩, [], some "short", false⟩,
      .addProperty 0 ⟨⟨"date", "s:date"⟩, [], none, false⟩,
      .addProperty 0 ⟨⟨"note", "s:note"⟩, [], some "long", true⟩,
      .addEnumValue 0 ⟨⟨"Monday", "s:Monday"⟩, some "first"⟩,
      .addEnumValue 0 ⟨⟨"Friday", "s:Friday"⟩, none⟩,
      .addEnumValue 0 ⟨⟨"Monday", "s:Monday"⟩, some "second"⟩]

theorem sorted_views_of_weekShelf :
    ∃ day, weekShelf.entity? 0 = some day ∧ day.kind = .rdfsClass ∧ day.enumValues ≠ [] ∧
      Identifier.IsView Property.id day.properties
        [⟨⟨"date", "s:date"⟩, [], none, false⟩, ⟨⟨"note", "s:note"⟩, [], some "short", false⟩,
          ⟨⟨"note", "s:note"⟩, [], some "long", true⟩] ∧
      (∃ s, weekShelf.addProperty 0 ⟨⟨"link", "s:link"⟩, [], none, false⟩ = .ok s ∧
        (s.entity? 0).map (fun e => e.properties.length) = some 4) ∧
      (weekShelf.declarations .standard day).filter Declaration.isEnumeration =
        [.enumeration "DayEnum" none
          [⟨"Friday", "s:Friday", none⟩, ⟨"Monday", "s:Monday", some "first"⟩,
            ⟨"Monday", "s:Monday", some "second"⟩]] := by
  have hday : (weekShelf.entity? 0).map (fun e => (e.kind, e.nameOfEnum, e.properties,
      e.enumValues)) =
        some (.rdfsClass, "DayEnum",
          [⟨⟨"note", "s:note"⟩, [], some "short", false⟩, ⟨⟨"date", "s:date"⟩, [], none, false⟩,
            ⟨⟨"note", "s:note"⟩, [], some "long", true⟩],
          [⟨⟨"Monday", "s:Monday"⟩, some "first"⟩, ⟨⟨"Friday", "s:Friday"⟩, none⟩,
            ⟨⟨"Monday", "s:Monday"⟩, some "second"⟩]) := by
    cbv
  rcases Option.map_eq_some_iff.mp hday with ⟨day, hday, hdayIs⟩
  simp only [Prod.mk.injEq] at hdayIs
  rcases hdayIs with ⟨hclass, hname, hproperties, henumValues⟩
  have hsome : day.enumValues ≠ [] := by
    rw [henumValues]
    exact List.cons_ne_nil _ _
  rcases sorted_views_lose_nothing .standard hday with
    ⟨⟨hview, _⟩, ⟨hvalues, _⟩, hadd, _, _, henumeration⟩
  rcases hadd ⟨⟨"link", "s:link"⟩, [], none, false⟩ with ⟨s, hs, hafter⟩
  rcases henumeration hclass hsome with ⟨members, rfl, _, hfilter, _⟩
  -- In both lists the second item comes first, and the others share an identifier.
  have hshown : day.propertiesInOrder =
      [⟨⟨"date", "s:date"⟩, [], none, false⟩, ⟨⟨"note", "s:note"⟩, [], some "short", false⟩,
        ⟨⟨"note", "s:note"⟩, [], some "long", true⟩] := by
    rw [Entity.propertiesInOrder, hproperties]
    symm
    exact Identifier.eq_sortOn_iff.mpr
      ⟨by unfold Identifier.SortedOn; decide, fun id => Identifier.itemsWith_swap (by decide) id _⟩
  have hmembers : day.enumValuesInOrder =
      [⟨⟨"Friday", "s:Friday"⟩, none⟩, ⟨⟨"Monday", "s:Monday"⟩, some "first"⟩,
        ⟨⟨"Monday", "s:Monday"⟩, some "second"⟩] := by
    rw [Entity.enumValuesInOrder, henumValues]
    symm
    exact Identifier.eq_sortOn_iff.mpr
      ⟨by unfold Identifier.SortedOn; decide, fun id => Identifier.itemsWith_swap (by decide) id _⟩
  rw [hshown] at hview
  rw [hname, hmembers] at hfilter
  refine ⟨day, hday, hclass, hsome, hview, ⟨s, hs, ?_⟩, hfilter⟩
  rw [hafter, hproperties]
  rfl

end Registry

end VocabTypes
