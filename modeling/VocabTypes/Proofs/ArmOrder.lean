import VocabTypes.Proofs.Arms
import VocabTypes.Proofs.GlobalOrder
import VocabTypes.Proofs.Nodes

/-!
# The order of arms

## A public type is a list in disguise

The form of a public type depends on how many arms it has.  Taken apart it is one list
in every form: the enumeration, the direct instances, a reference for each child in the
order of the children, and strings.  There is a union in it just if there is something to
unite.
-/

namespace VocabTypes

/-!
# Unions within a type
-/

namespace TypeExpr

/-- A union stands somewhere in a type. -/
def HasUnion (type : TypeExpr) : Prop :=
  ∃ parts, union parts ∈ type.nodes

@[simp] theorem hasUnion_union (parts : List TypeExpr) : (union parts).HasUnion :=
  ⟨parts, mem_nodes _⟩

@[simp] theorem not_hasUnion_reference (name : String) : ¬ (reference name).HasUnion := by
  simp [HasUnion, nodes]

end TypeExpr

namespace Registry

theorem not_hasUnion_directShape (r : Registry) (o : Options) (e : Entity) :
    ¬ (r.directShape o e).HasUnion := by
  unfold directShape
  cases r.extendsBuiltin e with
  | true => exact TypeExpr.not_hasUnion_reference e.nameOfBase
  | false =>
      simp [TypeExpr.HasUnion, TypeExpr.nodes, TypeExpr.allNodes, Field.allNodes_eq_flatMap,
        Entity.classField, Field.mustHave]

/-- Direct instances stand alone just if there is nothing else. -/
theorem hasUnion_instanceShape_iff (r : Registry) (o : Options) (e : Entity) :
    (r.instanceShape o e).HasUnion ↔ r.otherArms e ≠ [] := by
  unfold instanceShape
  cases r.otherArms e with
  | nil => simp [r.not_hasUnion_directShape o e]
  | cons arm arms =>
      cases arms with
      | nil => simp
      | cons second arms => simp

theorem hasUnion_publicShape_iff (r : Registry) (o : Options) (e : Entity) :
    (r.publicShape o e).HasUnion ↔ 1 < (r.publicShape o e).arms.length := by
  rw [arms_publicShape, List.length_append, List.length_cons]
  unfold publicShape Entity.enumerationArms
  cases e.enumValues with
  | nil => simp [r.hasUnion_instanceShape_iff o e, List.length_pos_iff]
  | cons value values => simp

/-!
# The ids of the children

Sorting moves entities, not ids.  As every child is issued, the ids can be moved along,
and they are in strict order but for a child that is there more than once.
-/

theorem WellFormed.exists_ids_childrenInOrder {r : Registry} (h : r.WellFormed)
    {id : EntityId} {e : Entity} (he : r.entity? id = some e) :
    ∃ ordered : List EntityId, ordered.Perm e.children ∧
      ordered.map r.entity? = (r.childrenInOrder e).map some := by
  have hperm : ((r.childrenInOrder e).map some).Perm (e.children.map r.entity?) := by
    rw [← map_some_resolve (h.issued.children_lt he)]
    exact (Identifier.sortOn_perm Entity.subject (r.resolve e.children)).map some
  have hlift : Relation.Comp (fun entities ids => entities = ids.map r.entity?) List.Perm
      ((r.childrenInOrder e).map some) e.children := by
    rw [List.eq_map_comp_perm]
    exact hperm
  rcases hlift with ⟨ordered, hmap, hordered⟩
  exact ⟨ordered, hordered, hmap.symm⟩

theorem Indexed.eq_or_namedBefore {r : Registry} (h : r.Indexed) {a b : EntityId}
    {e f : Entity} (he : r.entity? a = some e) (hf : r.entity? b = some f)
    (hle : (compare e.subject f.subject).isLE = true) : a = b ∨ r.NamedBefore a b := by
  rcases Ordering.isLE_iff_eq_lt_or_eq_eq.mp hle with hlt | hequal
  · exact Or.inr ⟨e, f, he, hf, Identifier.compare_eq_lt_iff.mp hlt⟩
  · exact Or.inl (h.eq_of_compare_subject he hf hequal)

theorem Indexed.pairwise_ids_childrenInOrder {r : Registry} (h : r.Indexed) {e : Entity}
    {ordered : List EntityId} (hmap : ordered.map r.entity? = (r.childrenInOrder e).map some) :
    ordered.Pairwise fun a b => a = b ∨ r.NamedBefore a b := by
  have hsorted : (r.childrenInOrder e).Pairwise fun a b =>
      (compareOn Entity.subject a b).isLE = true :=
    pairwise_mergeSort_cmp (r.resolve e.children)
  have hentities : (ordered.map r.entity?).Pairwise fun a b =>
      ∃ e f, a = some e ∧ b = some f ∧ (compare e.subject f.subject).isLE = true := by
    rw [hmap, List.pairwise_map]
    apply hsorted.imp
    intro e f hle
    exact ⟨e, f, rfl, rfl, hle⟩
  rw [List.pairwise_map] at hentities
  apply hentities.imp
  intro a b hab
  rcases hab with ⟨e, f, he, hf, hle⟩
  exact h.eq_or_namedBefore he hf hle

/--
The arms of a public type are the enumeration if there are values, the direct instances, a
reference for each time that an entity is a child, by name and IRI of the children, and
strings if they are admitted.  A union is part of the type just if there are two arms or
more.
-/
theorem public_arms_in_order {r : Registry} (hr : r.Reachable) (o : Options) {id : EntityId}
    {e : Entity} (he : r.entity? id = some e) :
    r.checkedPublicShape o id = some (r.publicShape o e) ∧
    (∃ (ordered : List EntityId) (children : List Entity),
      ordered.Perm e.children ∧
      (ordered.Pairwise fun a b => a = b ∨ r.NamedBefore a b) ∧
      ordered.map r.entity? = children.map some ∧
      (r.publicShape o e).arms =
        e.enumerationArms ++ r.directShape o e ::
          ((children.map fun child => .reference child.name) ++
            if r.admitsString e then [.reference "string"] else [])) ∧
    ((r.publicShape o e).HasUnion ↔ 1 < (r.publicShape o e).arms.length) := by
  have h := hr.wellFormed
  rcases h.exists_ids_childrenInOrder he with ⟨ordered, hperm, hmap⟩
  refine ⟨h.checkedPublicShape_eq he o, ⟨ordered, r.childrenInOrder e, hperm, ?_, hmap, ?_⟩,
    r.hasUnion_publicShape_iff o e⟩
  · exact h.indexed.pairwise_ids_childrenInOrder hmap
  · rw [arms_publicShape, otherArms]
    rfl

/-- A class with a value that admits strings, above one class once and another one twice. -/
def genreShelf : Registry :=
  empty.run
    [.insertClass ⟨"Genre", "s:Genre"⟩ true,
      .insertClass ⟨"Novel", "s:Novel"⟩ false,
      .insertClass ⟨"Essay", "s:Essay"⟩ false,
      .assert 1 (Statement.subclassOf ⟨"Genre", "s:Genre"⟩).toFact,
      .assert 2 (Statement.subclassOf ⟨"Genre", "s:Genre"⟩).toFact,
      .assert 1 (Statement.subclassOf ⟨"Genre", "s:Genre"⟩).toFact,
      .addEnumValue 0 ⟨⟨"Satire", "s:Satire"⟩, none⟩]

theorem public_arms_of_genreShelf :
    genreShelf.Reachable ∧ ∃ genre, genreShelf.entity? 0 = some genre ∧
      (∃ ordered : List EntityId, ordered.Perm [1, 2, 1] ∧
        ordered.Pairwise fun a b => a = b ∨ genreShelf.NamedBefore a b) ∧
      (genreShelf.publicShape .standard genre).arms =
        [.reference "GenreEnum", genreShelf.directShape .standard genre, .reference "Essay",
          .reference "Novel", .reference "Novel", .reference "string"] ∧
      (genreShelf.publicShape .standard genre).HasUnion := by
  have hr : genreShelf.Reachable := ⟨_, rfl⟩
  have hgenre : (genreShelf.entity? 0).map
      (fun e => (e.children, e.enumerationArms, genreShelf.otherArms e)) =
        some ([1, 2, 1], [.reference "GenreEnum"],
          [.reference "Essay", .reference "Novel", .reference "Novel",
            .reference "string"]) := by
    cbv
  rcases Option.map_eq_some_iff.mp hgenre with ⟨genre, hgenre, hgenreIs⟩
  simp only [Prod.mk.injEq] at hgenreIs
  rcases hgenreIs with ⟨hchildren, henumeration, hothers⟩
  rcases public_arms_in_order hr .standard hgenre with ⟨_, ⟨ordered, _, hperm, hsorted, _⟩, hunion⟩
  rw [hchildren] at hperm
  have harms : (genreShelf.publicShape .standard genre).arms =
      [.reference "GenreEnum", genreShelf.directShape .standard genre, .reference "Essay",
        .reference "Novel", .reference "Novel", .reference "string"] := by
    rw [arms_publicShape, henumeration, hothers]
    rfl
  refine ⟨hr, genre, hgenre, ⟨ordered, hperm, hsorted⟩, harms, ?_⟩
  apply hunion.mpr
  simp [harms]

end Registry
end VocabTypes
