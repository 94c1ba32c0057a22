import VocabTypes.Proofs.BaseParts
import VocabTypes.Proofs.SameListing
import VocabTypes.Proofs.WithoutDeprecated

/-!
# Skipped properties

## Leaving out before or while printing

Deprecated properties can be skipped by the generator, or be taken out of the registry
beforehand.  Both ways give the same record for each entity, since leaving out and stable
sorting can be exchanged, and nothing else that is printed reads a property.  Skipped
properties are therefore not seen in any part of the output.
-/

namespace VocabTypes

/-- The same options but for the choice on deprecated properties. -/
def Options.skipping (o : Options) (skip : Bool) : Options :=
  { o with skipDeprecatedProperties := skip }

/-!
# The record of an entity
-/

/-- Where deprecated properties are skipped the others are kept, and they are under any choice. -/
theorem Property.filter_current {o : Options} (h : o.skipDeprecatedProperties = true)
    (skip : Bool) (properties : List Property) :
    (current properties).filter (fun p => p.isKept (o.skipping skip)) =
      properties.filter fun p => p.isKept o := by
  rw [current, List.filter_filter]
  apply List.filter_congr
  intro p _
  cases hdeprecated : p.deprecated <;> simp [isKept, h, hdeprecated]

namespace Entity

variable {o : Options}

theorem ownFields_withoutDeprecated (h : o.skipDeprecatedProperties = true) (skip : Bool)
    (e : Entity) : e.withoutDeprecated.ownFields (o.skipping skip) = e.ownFields o := by
  have hkept : e.withoutDeprecated.keptInOrder (o.skipping skip) = e.keptInOrder o := by
    rw [keptInOrder_eq, keptInOrder_eq, withoutDeprecated, Property.filter_current h]
  rw [ownFields_eq, ownFields_eq, hkept]
  rfl

theorem ownRecord?_withoutDeprecated (h : o.skipDeprecatedProperties = true) (skip : Bool)
    (e : Entity) : e.withoutDeprecated.ownRecord? (o.skipping skip) = e.ownRecord? o := by
  rw [ownRecord?, ownRecord?, ownFields_withoutDeprecated h]

end Entity

namespace Registry

/-!
# What is inherited
-/

section

variable (r : Registry) (e : Entity)

theorem strictAncestors_withoutDeprecated :
    r.withoutDeprecated.strictAncestors e.withoutDeprecated =
      (r.strictAncestors e).map Entity.withoutDeprecated := by
  rw [strictAncestors, climb_withoutDeprecated, resolve_withoutDeprecated]
  rfl

theorem extendsBuiltin_withoutDeprecated :
    r.withoutDeprecated.extendsBuiltin e.withoutDeprecated = r.extendsBuiltin e := by
  rw [extendsBuiltin, strictAncestors_withoutDeprecated, List.any_map]
  rfl

theorem admitsString_withoutDeprecated :
    r.withoutDeprecated.admitsString e.withoutDeprecated = r.admitsString e := by
  rw [admitsString, strictAncestors_withoutDeprecated, List.any_map]
  rfl

/-!
# Links
-/

/-- Links lead to the same entities, as far as they are read without their properties. -/
theorem map_resolve_withoutDeprecated {β : Type} {g : Entity → β}
    (hg : ∀ e, g e.withoutDeprecated = g e) (ids : List EntityId) :
    (r.withoutDeprecated.resolve ids).map g = (r.resolve ids).map g := by
  rw [resolve_withoutDeprecated, List.map_map]
  exact List.map_congr_left fun e _ => hg e

theorem parentBase?_withoutDeprecated :
    r.withoutDeprecated.parentBase? e.withoutDeprecated = r.parentBase? e := by
  rw [parentBase?_eq, map_resolve_withoutDeprecated r fun _ => rfl, parentBase?_eq]
  rfl

theorem childrenInOrder_withoutDeprecated :
    r.withoutDeprecated.childrenInOrder e.withoutDeprecated =
      (r.childrenInOrder e).map Entity.withoutDeprecated := by
  rw [childrenInOrder, resolve_withoutDeprecated]
  symm
  apply List.map_mergeSort
  intro a _ b _
  rfl

theorem otherArms_withoutDeprecated :
    r.withoutDeprecated.otherArms e.withoutDeprecated = r.otherArms e := by
  rw [otherArms, childrenInOrder_withoutDeprecated, admitsString_withoutDeprecated,
    List.map_map]
  rfl

theorem documentation_withoutDeprecated :
    r.withoutDeprecated.documentation e.withoutDeprecated = r.documentation e := by
  have hnotice : r.withoutDeprecated.deprecationNotice e.withoutDeprecated =
      r.deprecationNotice e := by
    rw [deprecationNotice, map_resolve_withoutDeprecated r fun _ => rfl]
    rfl
  rw [documentation, hnotice]
  rfl

end

/-!
# Declarations
-/

section

variable (r : Registry) {o : Options} (h : o.skipDeprecatedProperties = true) (skip : Bool)
  (e : Entity)

include h in
theorem baseShape_withoutDeprecated :
    r.withoutDeprecated.baseShape (o.skipping skip) e.withoutDeprecated = r.baseShape o e := by
  rw [baseShape, parentBase?_withoutDeprecated, Entity.ownRecord?_withoutDeprecated h]
  rfl

theorem publicShape_withoutDeprecated :
    r.withoutDeprecated.publicShape (o.skipping skip) e.withoutDeprecated = r.publicShape o e := by
  have hdirect : r.withoutDeprecated.directShape (o.skipping skip) e.withoutDeprecated =
      r.directShape o e := by
    rw [directShape, extendsBuiltin_withoutDeprecated]
    rfl
  have hinstances : r.withoutDeprecated.instanceShape (o.skipping skip) e.withoutDeprecated =
      r.instanceShape o e := by
    rw [instanceShape, otherArms_withoutDeprecated, hdirect]
    rfl
  rw [publicShape, hinstances]
  rfl

include h in
theorem declarations_withoutDeprecated :
    r.withoutDeprecated.declarations (o.skipping skip) e.withoutDeprecated =
      r.declarations o e := by
  have hclass : r.withoutDeprecated.declarationsOfClass (o.skipping skip) e.withoutDeprecated =
      r.declarationsOfClass o e := by
    rw [declarationsOfClass, baseShape_withoutDeprecated r h, documentation_withoutDeprecated,
      publicShape_withoutDeprecated]
    rfl
  rw [declarations_eq, hclass, map_resolve_withoutDeprecated r fun _ => rfl, declarations_eq]
  rfl

/-!
# Listings
-/

theorem entitiesInOrder_withoutDeprecated :
    r.withoutDeprecated.entitiesInOrder = r.entitiesInOrder.map Entity.withoutDeprecated := by
  rw [entitiesInOrder_eq, entitiesInOrder_eq]
  symm
  apply List.map_mergeSort
  intro a _ b _
  rfl

include h in
theorem listing_withoutDeprecated :
    r.withoutDeprecated.listing (o.skipping skip) = r.listing o := by
  have hdeclarations : r.withoutDeprecated.declarationsInOrder (o.skipping skip) =
      r.declarationsInOrder o := by
    rw [declarationsInOrder, entitiesInOrder_withoutDeprecated, List.flatMap_map]
    simp only [declarations_withoutDeprecated r h]
    rfl
  rw [listing, hdeclarations, entitiesInOrder_withoutDeprecated, List.length_map,
    List.countP_map]
  rfl

end

/--
Skipping deprecated properties is like never having had them.

The calls that made a registry make it without its deprecated properties once those are
left out of the calls.  If they are skipped, then the listing of the smaller registry is
that of the whole one, with any choice on deprecated properties, for there are none.  So
registries that differ only in their deprecated properties have the same listing.
-/
theorem listing_skips_deprecated (r : Registry) {o : Options}
    (ho : o.skipDeprecatedProperties = true) :
    (∀ calls, empty.run calls = r →
      empty.run (calls.filterMap Call.withoutDeprecated?) = r.withoutDeprecated) ∧
    r.listing o = r.withoutDeprecated.listing o ∧
    r.listing o = r.withoutDeprecated.listing { o with skipDeprecatedProperties := false } ∧
    ∀ s : Registry, s.withoutDeprecated = r.withoutDeprecated → s.listing o = r.listing o := by
  refine ⟨?_, ?_, ?_, ?_⟩
  · rintro calls rfl
    exact (withoutDeprecated_run empty calls).symm
  · have hskipping := r.listing_withoutDeprecated ho o.skipDeprecatedProperties
    exact hskipping.symm
  · exact (r.listing_withoutDeprecated ho false).symm
  · intro s hs
    rw [← s.listing_withoutDeprecated ho true, hs, r.listing_withoutDeprecated ho true]

/-- The shelf with a price for works too, which is as deprecated as that for volumes. -/
def pricedShelf : Registry :=
  (volumeShelf.perform (.addProperty 1 ⟨⟨"cost", "s:cost"⟩, [], some "in coins", true⟩)).1

theorem prices_skipped :
    pricedShelf ≠ volumeShelf ∧ volumeShelf ≠ volumeShelf.withoutDeprecated ∧
      currentOnly.skipDeprecatedProperties = true ∧
      volumeShelf.listing currentOnly = volumeShelf.withoutDeprecated.listing Options.standard ∧
      pricedShelf.listing currentOnly = volumeShelf.listing currentOnly := by
  have hskip : currentOnly.skipDeprecatedProperties = true := rfl
  have hshelf : volumeShelf.entities.map (fun e => e.properties.length) = [0, 0, 4] := by
    cbv
  have hpriced : pricedShelf.entities.map (fun e => e.properties.length) = [0, 1, 4] := by
    cbv
  have hcurrent : volumeShelf.withoutDeprecated.entities.map (fun e => e.properties.length) =
      [0, 0, 3] := by
    cbv
  rcases listing_skips_deprecated volumeShelf hskip with ⟨_, _, hlisting, hsame⟩
  refine ⟨?_, ?_, hskip, hlisting, hsame pricedShelf ?_⟩
  · intro hequal
    rw [hequal, hshelf] at hpriced
    cases hpriced
  · intro hequal
    rw [← hequal, hshelf] at hcurrent
    cases hcurrent
  · exact addProperty_of_deprecated volumeShelf 1 rfl

end Registry
end VocabTypes
