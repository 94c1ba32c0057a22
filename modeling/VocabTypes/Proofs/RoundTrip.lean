import Mathlib.Data.List.Forall2
import VocabTypes.Formats
import VocabTypes.Proofs.Completeness

/-!
# Round trip

## Values read back from all their texts

A value is shown by the JSON that is written for it.  It is shown as well when the
members of an object come in another order, when there are members under keys that no
field has, and when fields are left out that have their fallback.  The value is read
back from every text of any JSON that shows it.
-/

namespace VocabTypes
namespace Json

open Grammar

/-!
# What shows a value
-/

def Fields.keys : {δ σ : Type} → Fields δ σ → List String
  | _, _, .nil => []
  | _, _, .cons key _ _ rest => key :: rest.keys

mutual

/-- The JSON values that a format allows for a value. -/
def Format.Shows : {α : Type} → Format α → α → Json → Prop
  | _, .bool, value, json => json = .bool value
  | _, .text, value, json => json = .str value
  | _, .list item, values, json =>
      ∃ items, json = .arr items ∧ List.Forall₂ item.Shows values items
  | _, .nullable _, none, json => json = .null
  | _, .nullable item, some value, json => item.Shows value json
  | _, .record fields, values, json =>
      ∃ own others members, fields.Lists values own ∧
        (∀ other ∈ others, other.1 ∉ fields.keys) ∧ members.Perm (own ++ others) ∧
          json = .obj members
  | _, .either leftKey left _ _, .inl value, json =>
      ∃ inner, json = .obj [(leftKey, inner)] ∧ left.Shows value inner
  | _, .either _ _ rightKey right, .inr value, json =>
      ∃ inner, json = .obj [(rightKey, inner)] ∧ right.Shows value inner
  | _, .via inner _ view _, value, json => inner.Shows (view value) json

/-- Members that show the fields in their order; a field may be left out for its fallback. -/
def Fields.Lists : {δ σ : Type} → Fields δ σ → σ → List (String × Json) → Prop
  | _, _, .nil, _, members => members = []
  | _, _, .cons key item fallback rest, (value, values), members =>
      (∃ json later, members = (key, json) :: later ∧ item.Shows value json ∧
        rest.Lists values later) ∨
          (fallback = some value ∧ rest.Lists values members)

end

mutual

theorem Format.shows_write : ∀ {α : Type} (format : Format α) (value : α),
    format.Shows value (format.write value)
  | _, .bool, _ => rfl
  | _, .text, _ => rfl
  | _, .list item, values => by
      refine ⟨values.map item.write, by rw [Format.write], ?_⟩
      rw [List.forall₂_map_right_iff, List.forall₂_same]
      exact fun value _ => item.shows_write value
  | _, .nullable _, none => rfl
  | _, .nullable item, some value => item.shows_write value
  | _, .record fields, values => by
      refine ⟨fields.write values, [], fields.write values, fields.lists_write values, ?_, ?_, ?_⟩
      · exact List.forall_mem_nil _
      · rw [List.append_nil]
      · rw [Format.write]
  | _, .either _ left _ _, .inl value => ⟨left.write value, rfl, left.shows_write value⟩
  | _, .either _ _ _ right, .inr value => ⟨right.write value, rfl, right.shows_write value⟩
  | _, .via inner _ view _, value => inner.shows_write (view value)

theorem Fields.lists_write : ∀ {δ σ : Type} (fields : Fields δ σ) (values : σ),
    fields.Lists values (fields.write values)
  | _, _, .nil, _ => rfl
  | _, _, .cons _ item _ rest, (value, values) =>
      Or.inl ⟨item.write value, rest.write values, rfl, item.shows_write value,
        rest.lists_write values⟩

end

/-!
# Formats that tell values apart

A field is found by its key and `null` stands for a missing value, so keys have to be
distinct and what may be missing must not be `null` itself.
-/

def Format.admitsNull : {α : Type} → Format α → Bool
  | _, .nullable _ => true
  | _, .via inner _ _ _ => inner.admitsNull
  | _, _ => false

mutual

def Format.isSound : {α : Type} → Format α → Bool
  | _, .bool => true
  | _, .text => true
  | _, .list item => item.isSound
  | _, .nullable item => !item.admitsNull && item.isSound
  | _, .record fields => decide fields.keys.Nodup && fields.areSound
  | _, .either leftKey left rightKey right =>
      leftKey != rightKey && (left.isSound && right.isSound)
  | _, .via inner _ _ _ => inner.isSound

def Fields.areSound : {δ σ : Type} → Fields δ σ → Bool
  | _, _, .nil => true
  | _, _, .cons _ item _ rest => item.isSound && rest.areSound

end

theorem Format.not_shows_null : ∀ {α : Type} (format : Format α),
    format.admitsNull = false → ∀ value, ¬ format.Shows value .null
  | _, .bool, _, _, h => nomatch h
  | _, .text, _, _, h => nomatch h
  | _, .list _, _, _, h => by
      rcases h with ⟨_, heq, _⟩
      cases heq
  | _, .nullable _, hnull, _, _ => nomatch hnull
  | _, .record _, _, _, h => by
      rcases h with ⟨_, _, _, _, _, _, heq⟩
      cases heq
  | _, .either _ _ _ _, _, .inl _, h => by
      rcases h with ⟨_, heq, _⟩
      cases heq
  | _, .either _ _ _ _, _, .inr _, h => by
      rcases h with ⟨_, heq, _⟩
      cases heq
  | _, .via inner _ view _, hnull, value, h => inner.not_shows_null hnull (view value) h

/-!
# Passing on to items and keys
-/

theorem gives_nextItem_close {first : Bool} {s rest : List Char} (h : Blanks s (']' :: rest)) :
    Gives (nextItem first s) false rest := by
  have hs := h.skipBlanks_cons rfl
  unfold nextItem
  split
  case h_1 hnone => rw [hs] at hnone; cases hnone
  case h_2 c later hfound =>
    rw [hs] at hfound
    cases hfound
    exact ⟨_, rfl⟩

/-- Passing on to an item leaves it to be read, with the blanks before it. -/
theorem gives_nextItem {first : Bool} {s here between : List Char} {item : Json}
    (hseparator : Separator first s here) (hvalue : Value here item between) :
    ∃ before, Blanks before here ∧ Gives (nextItem first s) true before := by
  cases hseparator with
  | first hblanks =>
      rcases hvalue.starts with ⟨c, later, rfl, hblank, hclose⟩
      have hs := hblanks.skipBlanks_cons hblank
      refine ⟨s, hblanks, ?_⟩
      unfold nextItem
      split
      case h_1 hnone => rw [hs] at hnone; cases hnone
      case h_2 d after hfound =>
        rw [hs] at hfound
        cases hfound
        rw [if_neg hclose]
        exact ⟨_, rfl⟩
  | comma hcomma hblanks =>
      have hs := hcomma.skipBlanks_cons rfl
      refine ⟨_, hblanks, ?_⟩
      unfold nextItem
      split
      case h_1 hnone => rw [hs] at hnone; cases hnone
      case h_2 d after hfound =>
        rw [hs] at hfound
        cases hfound
        exact ⟨_, rfl⟩

theorem gives_keyHere {here cs colon : List Char} (h : Letters here cs colon) :
    Gives (keyHere ('"' :: here)) (String.ofList cs) colon := by
  rw [keyHere, if_pos rfl]
  exact h.stringBody.widen _

theorem gives_nextKey_close {first : Bool} {s rest : List Char} (h : Blanks s ('\x7d' :: rest)) :
    Gives (nextKey first s) none rest := by
  apply gives_trimmed (h.skipBlanks_cons rfl)
  dsimp only
  rw [if_pos rfl]
  exact ⟨_, rfl⟩

theorem gives_nextKey {first : Bool} {s here cs colon : List Char}
    (hseparator : Separator first s ('"' :: here)) (hkey : Letters here cs colon) :
    Gives (nextKey first s) (some (String.ofList cs)) colon := by
  cases hseparator with
  | first hblanks =>
      apply gives_trimmed (hblanks.skipBlanks_cons rfl)
      dsimp only
      rw [if_neg (by decide), if_pos rfl]
      exact (gives_keyHere hkey).map _
  | comma hcomma hblanks =>
      apply gives_trimmed (hcomma.skipBlanks_cons rfl)
      dsimp only
      rw [if_neg (by decide), if_neg (by decide), if_pos rfl]
      have htrimmed := gives_trimmed (hblanks.skipBlanks_cons rfl) (gives_keyHere hkey)
      exact (htrimmed.map _).widen _

/-!
# Reading back
-/

/-- A value is read back from any text of a JSON value that shows it. -/
def Format.ReadsBack {α : Type} (format : Format α) : Prop :=
  ∀ ⦃value : α⦄ ⦃json : Json⦄, format.Shows value json →
    ∀ ⦃before s rest : List Char⦄, Blanks before s → Value s json rest →
      Gives (format.read before) value rest

namespace Format

theorem readsBack_bool : Format.bool.ReadsBack := by
  intro value json hshows before s rest hbefore hvalue
  cases hshows
  rw [Format.read, readBool]
  cases hvalue with
  | isTrue =>
      apply gives_trimmed (hbefore.skipBlanks_cons rfl)
      dsimp only
      rw [if_pos rfl]
      exact ((gives_word ['t', 'r', 'u', 'e'] rest).map _).widen _
  | isFalse =>
      apply gives_trimmed (hbefore.skipBlanks_cons rfl)
      dsimp only
      rw [if_neg (by decide), if_pos rfl]
      exact ((gives_word ['f', 'a', 'l', 's', 'e'] rest).map _).widen _

theorem readsBack_text : Format.text.ReadsBack := by
  intro value json hshows before s rest hbefore hvalue
  cases hshows
  rw [Format.read, readText]
  cases hvalue with
  | string hletters =>
      apply gives_trimmed (hbefore.skipBlanks_cons rfl)
      dsimp only
      rw [if_pos rfl]
      exact hletters.stringBody.widen _

theorem ReadsBack.nullable {α : Type} {item : Format α} (h : item.ReadsBack)
    (hnull : item.admitsNull = false) : (Format.nullable item).ReadsBack := by
  intro value json hshows before s rest hbefore hvalue
  rw [Format.read, readNullable]
  cases value with
  | none =>
      cases hshows
      cases hvalue with
      | null =>
          apply gives_trimmed (hbefore.skipBlanks_cons rfl)
          dsimp only
          rw [if_pos rfl]
          exact ((gives_word ['n', 'u', 'l', 'l'] rest).map _).widen _
  | some value =>
      have hread := h hshows .none hvalue
      rcases hvalue.starts with ⟨c, later, rfl, hblank, _⟩
      apply gives_trimmed (hbefore.skipBlanks_cons hblank)
      dsimp only
      rw [if_neg]
      · exact hread.map _
      · rintro rfl
        rw [hvalue.eq_null] at hshows
        exact item.not_shows_null hnull value hshows

theorem ReadsBack.via {α β : Type} {inner : Format α} (h : inner.ReadsBack) (make : α → β)
    (view : β → α) (make_view : ∀ b, make (view b) = b) :
    (Format.via inner make view make_view).ReadsBack := by
  intro value json hshows before s rest hbefore hvalue
  have hread := (h hshows hbefore hvalue).map make
  rw [make_view] at hread
  exact hread

/-!
# Items
-/

theorem ReadsBack.gives_items {α : Type} {item : Format α} (h : item.ReadsBack) {values : List α}
    {jsons : List Json} (hshows : List.Forall₂ item.Shows values jsons) {first : Bool}
    {s rest : List Char} (hitems : Items first s jsons rest) :
    Gives (items item.read first s) values rest := by
  induction hshows generalizing first s with
  | nil =>
      cases hitems with
      | close hblanks =>
          rcases gives_nextItem_close hblanks with ⟨_, heq⟩
          rw [items, heq]
          exact ⟨_, rfl⟩
  | cons hshown _ ih =>
      cases hitems with
      | item hseparator hvalue hlater =>
          rcases gives_nextItem hseparator hvalue with ⟨before, hbefore, _, hnext⟩
          rcases h hshown hbefore hvalue with ⟨_, hread⟩
          rw [items, hnext]
          dsimp only
          rw [hread]
          exact ((ih hlater).map _).widen _

theorem ReadsBack.list {α : Type} {item : Format α} (h : item.ReadsBack) :
    (Format.list item).ReadsBack := by
  intro values json hshows before s rest hbefore hvalue
  rcases hshows with ⟨jsons, rfl, hshown⟩
  rw [Format.read, readList]
  cases hvalue with
  | list hitems =>
      apply gives_trimmed (hbefore.skipBlanks_cons rfl)
      dsimp only
      rw [if_pos rfl]
      exact h.gives_items hshown hitems

/-!
# Objects with one member
-/

theorem ReadsBack.gives_readUnder {α : Type} {item : Format α} (h : item.ReadsBack) {value : α}
    {json : Json} (hshows : item.Shows value json) {colon after here between rest : List Char}
    (hcolon : Blanks colon (':' :: after)) (hblanks : Blanks after here)
    (hvalue : Value here json between) (hlater : Members false between [] rest) :
    Gives (readUnder item.read colon) value rest := by
  cases hlater with
  | close hclose =>
      have hread : Gives ((mark ':' colon).andThen fun _ => item.read) value between :=
        (hcolon.mark rfl).andThen (h hshows hblanks hvalue)
      exact hread.andThen ((hclose.mark rfl).map _)

/-- An object with one member is read by its key and the value under it. -/
theorem ReadsBack.gives_single {α : Type} {item : Format α} (h : item.ReadsBack) {value : α}
    {key : String} {inner : Json} (hshows : item.Shows value inner)
    {before s rest : List Char} (hbefore : Blanks before s)
    (hvalue : Value s (.obj [(key, inner)]) rest) :
    ∃ start colon, skipBlanks before = '\x7b' :: start ∧
      Gives (keyHere.trimmed start) key colon ∧ Gives (readUnder item.read colon) value rest := by
  cases hvalue with
  | object hmembers =>
      cases hmembers with
      | member hseparator hkey hcolon hblanks hinner hlater =>
          cases hseparator with
          | first hstart =>
              refine ⟨_, _, (hbefore.skipBlanks_cons rfl), ?_,
                h.gives_readUnder hshows hcolon hblanks hinner hlater⟩
              exact gives_trimmed (hstart.skipBlanks_cons rfl) (gives_keyHere hkey)

theorem ReadsBack.either {α β : Type} {leftKey rightKey : String} {left : Format α}
    {right : Format β} (hleft : left.ReadsBack) (hright : right.ReadsBack)
    (hkeys : leftKey ≠ rightKey) : (Format.either leftKey left rightKey right).ReadsBack := by
  intro value json hshows before s rest hbefore hvalue
  rw [Format.read, readEither]
  cases value with
  | inl value =>
      rcases hshows with ⟨inner, rfl, hshown⟩
      rcases hleft.gives_single hshown hbefore hvalue with ⟨start, colon, hstart, hkey, hunder⟩
      apply gives_trimmed hstart
      dsimp only
      rw [if_pos rfl]
      apply Gives.widen
      apply hkey.andThen
      rw [if_pos rfl]
      exact hunder.map _
  | inr value =>
      rcases hshows with ⟨inner, rfl, hshown⟩
      rcases hright.gives_single hshown hbefore hvalue with ⟨start, colon, hstart, hkey, hunder⟩
      apply gives_trimmed hstart
      dsimp only
      rw [if_pos rfl]
      apply Gives.widen
      apply hkey.andThen
      rw [if_neg hkeys.symm, if_pos rfl]
      exact hunder.map _

end Format

/-!
# Records

A draft has read some of the fields, and the members that are still to come hold the
others.  A member is passed over or completes one more field, and what the draft lacks
in the end has its fallback.
-/

/-- The values of the members with a key. -/
def under (key : String) (members : List (String × Json)) : List Json :=
  (members.filter fun member => member.1 == key).map Prod.snd

theorem under_cons_self (key : String) (json : Json) (members : List (String × Json)) :
    under key ((key, json) :: members) = json :: under key members := by
  simp [under]

theorem under_cons_of_ne {key other : String} (h : other ≠ key) (json : Json)
    (members : List (String × Json)) :
    under key ((other, json) :: members) = under key members := by
  simp [under, h]

theorem under_eq_nil {key : String} {members : List (String × Json)}
    (h : ∀ member ∈ members, member.1 ≠ key) : under key members = [] := by
  rw [under, List.map_eq_nil_iff, List.filter_eq_nil_iff]
  intro member hmember
  simp [h member hmember]

namespace Fields

/-- Each field has been read or waits for the one member with its key, or for its fallback. -/
def Pending : {δ σ : Type} → Fields δ σ → δ → σ → List (String × Json) → Prop
  | _, _, .nil, _, _, _ => True
  | _, _, .cons key item fallback rest, (draft, drafts), (value, values), members =>
      ((draft.or fallback = some value ∧ under key members = []) ∨
        (draft = none ∧ ∃ json, under key members = [json] ∧ item.Shows value json)) ∧
          rest.Pending drafts values members

theorem Pending.perm : ∀ {δ σ : Type} {fields : Fields δ σ} {draft : δ} {values : σ}
    {members others : List (String × Json)}, fields.Pending draft values members →
      (∀ key ∈ fields.keys, (under key others).Perm (under key members)) →
        fields.Pending draft values others
  | _, _, .nil, _, _, _, _, _, _ => trivial
  | _, _, .cons key item fallback rest, (draft, drafts), (value, values), _, _, h, hperm => by
      rw [keys, List.forall_mem_cons] at hperm
      rcases hperm with ⟨hhere, hlater⟩
      rcases h with ⟨hsettled | hawaited, hrest⟩
      · rcases hsettled with ⟨hvalue, hnone⟩
        rw [hnone] at hhere
        exact ⟨Or.inl ⟨hvalue, hhere.eq_nil⟩, hrest.perm hlater⟩
      · rcases hawaited with ⟨hdraft, json, hone, hshown⟩
        rw [hone] at hhere
        exact ⟨Or.inr ⟨hdraft, json, List.perm_singleton.mp hhere, hshown⟩, hrest.perm hlater⟩

/-- What is left of the members when the fields are complete decides nothing any more. -/
theorem Pending.complete_eq : ∀ {δ σ : Type} {fields : Fields δ σ} {draft : δ} {values : σ},
    fields.Pending draft values [] → fields.complete draft = some values
  | _, _, .nil, _, _, _ => rfl
  | _, _, .cons _ _ _ _, (_, _), (_, _), h => by
      rcases h with ⟨hsettled | hawaited, hrest⟩
      · rw [complete, hsettled.left, hrest.complete_eq]
      · rcases hawaited with ⟨_, _, hone, _⟩
        cases hone

def AllReadBack : {δ σ : Type} → Fields δ σ → Prop
  | _, _, .nil => True
  | _, _, .cons _ item _ rest => item.ReadsBack ∧ rest.AllReadBack

theorem slot_of_not_mem : ∀ {δ σ : Type} {fields : Fields δ σ} {key : String} (draft : δ),
    key ∉ fields.keys → fields.slot key draft = .unknown
  | _, _, .nil, _, _, _ => rfl
  | _, _, .cons _ _ _ _, _, (_, drafts), hkey => by
      rw [keys, List.mem_cons, not_or] at hkey
      rw [slot]
      dsimp only
      rw [if_neg hkey.left, slot_of_not_mem drafts hkey.right]
      rfl

/-- A member that no field knows leaves the others as they are. -/
theorem Pending.passed {δ σ : Type} {fields : Fields δ σ} {draft : δ} {values : σ} {key : String}
    {json : Json} {members : List (String × Json)} (hkey : key ∉ fields.keys)
    (h : fields.Pending draft values ((key, json) :: members)) :
    fields.Pending draft values members := by
  apply h.perm
  intro own hown
  have hother : key ≠ own := by
    rintro rfl
    exact hkey hown
  rw [under_cons_of_ne hother]

/-- The member of a field is read into the draft, which then has that field too. -/
theorem Pending.filled : ∀ {δ σ : Type} {fields : Fields δ σ} {draft : δ} {values : σ}
    {key : String} {json : Json} {members : List (String × Json)}, fields.keys.Nodup →
      fields.AllReadBack → key ∈ fields.keys →
        fields.Pending draft values ((key, json) :: members) →
          ∃ fill, fields.slot key draft = .vacant fill ∧
            ∀ {before s rest : List Char}, Blanks before s → Value s json rest →
              ∃ next, Gives (fill before) next rest ∧ fields.Pending next values members
  | _, _, .nil, _, _, _, _, _, _, _, hkey, _ => nomatch hkey
  | _, _, .cons own item fallback rest, (draft, drafts), (value, values), key, json, members,
      hkeys, hread, hkey, h => by
      rw [keys, List.nodup_cons] at hkeys
      rcases hread with ⟨hitem, hread⟩
      rcases h with ⟨hhere, hrest⟩
      by_cases hown : key = own
      · subst hown
        rw [under_cons_self] at hhere
        rcases hhere with ⟨_, hnone⟩ | ⟨rfl, other, hone, hshown⟩
        · cases hnone
        · rcases List.cons.inj hone with ⟨rfl, hnone⟩
          refine ⟨fun s => (item.read s).map fun value => (some value, drafts), ?_, ?_⟩
          · rw [slot]
            dsimp only
            rw [if_pos rfl]
            rfl
          · intro before s after hbefore hvalue
            exact ⟨(some value, drafts), (hitem hshown hbefore hvalue).map _, Or.inl ⟨rfl, hnone⟩,
              hrest.passed hkeys.left⟩
      · rw [under_cons_of_ne hown] at hhere
        rw [keys, List.mem_cons, or_iff_right hown] at hkey
        rcases hrest.filled hkeys.right hread hkey with ⟨fill, hslot, hfill⟩
        refine ⟨fun s => (fill s).map fun drafts => (draft, drafts), ?_, ?_⟩
        · rw [slot]
          dsimp only
          rw [if_neg hown, hslot]
          rfl
        · intro before s after hbefore hvalue
          rcases hfill hbefore hvalue with ⟨next, hgives, hpending⟩
          exact ⟨(draft, next), hgives.map _, hhere, hpending⟩

theorem Lists.mem_keys : ∀ {δ σ : Type} {fields : Fields δ σ} {values : σ}
    {members : List (String × Json)}, fields.Lists values members →
      ∀ member ∈ members, member.1 ∈ fields.keys
  | _, _, .nil, _, _, rfl => List.forall_mem_nil _
  | _, _, .cons key _ _ rest, (_, _), _, h => by
      intro member hmember
      rw [keys, List.mem_cons]
      rcases h with ⟨json, later, rfl, _, hlater⟩ | ⟨_, hlater⟩
      · rcases List.mem_cons.mp hmember with rfl | hmember
        · exact Or.inl rfl
        · exact Or.inr (hlater.mem_keys member hmember)
      · exact Or.inr (hlater.mem_keys member hmember)

theorem Lists.ne_of_not_mem {δ σ : Type} {fields : Fields δ σ} {values : σ} {key : String}
    {members : List (String × Json)} (h : fields.Lists values members)
    {member : String × Json} (hmember : member ∈ members) (hkey : key ∉ fields.keys) :
    member.1 ≠ key := by
  rintro rfl
  exact hkey (h.mem_keys member hmember)

/-- Before anything has been read, the fields wait for the members that show them. -/
theorem Lists.pending : ∀ {δ σ : Type} {fields : Fields δ σ} {values : σ}
    {members : List (String × Json)}, fields.Lists values members → fields.keys.Nodup →
      fields.Pending fields.blank values members
  | _, _, .nil, _, _, _, _ => trivial
  | _, _, .cons key item fallback rest, (value, values), members, h, hkeys => by
      rw [keys, List.nodup_cons] at hkeys
      rcases h with ⟨json, later, rfl, hshown, hlater⟩ | ⟨hfallback, hlater⟩
      · have hnone := under_eq_nil fun member hmember => hlater.ne_of_not_mem hmember hkeys.left
        refine ⟨Or.inr ⟨rfl, json, ?_, hshown⟩, ?_⟩
        · rw [under_cons_self, hnone]
        · apply (hlater.pending hkeys.right).perm
          intro own hown
          have hother : key ≠ own := by
            rintro rfl
            exact hkeys.left hown
          rw [under_cons_of_ne hother]
      · have hnone := under_eq_nil fun member hmember => hlater.ne_of_not_mem hmember hkeys.left
        exact ⟨Or.inl ⟨hfallback, hnone⟩, hlater.pending hkeys.right⟩

/-- Other members and another order leave what the fields wait for. -/
theorem Lists.pending_perm {δ σ : Type} {fields : Fields δ σ} {values : σ}
    {own others members : List (String × Json)} (h : fields.Lists values own)
    (hkeys : fields.keys.Nodup) (hothers : ∀ other ∈ others, other.1 ∉ fields.keys)
    (hperm : members.Perm (own ++ others)) : fields.Pending fields.blank values members := by
  apply (h.pending hkeys).perm
  intro key hkey
  have hnone : under key others = [] := by
    apply under_eq_nil
    rintro other hother rfl
    exact hothers other hother hkey
  have hunder : (under key members).Perm (under key (own ++ others)) :=
    (hperm.filter _).map Prod.snd
  have hown : under key (own ++ others) = under key own ++ under key others := by
    simp [under]
  rw [hown, hnone, List.append_nil] at hunder
  exact hunder

end Fields

/-!
# Members
-/

/-- Members complete the draft of the fields that wait for them. -/
theorem Fields.Pending.gives_members {δ σ : Type} {fields : Fields δ σ}
    (hkeys : fields.keys.Nodup) (hread : fields.AllReadBack) {draft : δ} {values : σ}
    {jsons : List (String × Json)} (h : fields.Pending draft values jsons) {first : Bool}
    {s rest : List Char} (hmembers : Members first s jsons rest) :
    ∃ done, Gives (members fields.slot first draft s) done rest ∧
      fields.Pending done values [] := by
  induction jsons generalizing draft first s with
  | nil =>
      cases hmembers with
      | close hblanks =>
          rcases gives_nextKey_close hblanks with ⟨_, hnext⟩
          refine ⟨draft, ?_, h⟩
          rw [members, hnext]
          exact ⟨_, rfl⟩
  | cons member jsons ih =>
      cases hmembers with
      | @member _ _ _ cs _ _ _ _ _ _ _ hseparator hkey hcolon hblanks hvalue hlater =>
          rcases gives_nextKey hseparator hkey with ⟨_, hnext⟩
          rw [members, hnext]
          dsimp only
          by_cases hfield : String.ofList cs ∈ fields.keys
          · rcases h.filled hkeys hread hfield with ⟨fill, hslot, hfill⟩
            rcases hfill hblanks hvalue with ⟨next, hgives, hpending⟩
            rcases ih hpending hlater with ⟨done, hdone, hcomplete⟩
            have hmarked : Gives ((mark ':' _).andThen fun _ => fill) next _ :=
              (hcolon.mark rfl).andThen hgives
            rcases hmarked with ⟨_, hafter⟩
            refine ⟨done, ?_, hcomplete⟩
            rw [hslot]
            dsimp only
            rw [hafter]
            exact hdone.widen _
          · have hpassed := hvalue.skipValue hlater.ends hblanks
            rcases ih (h.passed hfield) hlater with ⟨done, hdone, hcomplete⟩
            have hmarked : Gives ((mark ':' _).andThen fun _ => skipValue) () _ :=
              (hcolon.mark rfl).andThen hpassed
            rcases hmarked with ⟨_, hafter⟩
            refine ⟨done, ?_, hcomplete⟩
            rw [Fields.slot_of_not_mem draft hfield]
            dsimp only
            rw [hafter]
            exact hdone.widen _

theorem Format.readsBack_record {δ σ : Type} {fields : Fields δ σ} (hread : fields.AllReadBack)
    (hkeys : fields.keys.Nodup) : (Format.record fields).ReadsBack := by
  intro values json hshows before s rest hbefore hvalue
  rw [Format.read, readRecord]
  rcases hshows with ⟨own, others, jsons, hown, hothers, hperm, rfl⟩
  cases hvalue with
  | object hmembers =>
      have hpending := hown.pending_perm hkeys hothers hperm
      rcases hpending.gives_members hkeys hread hmembers with ⟨done, ⟨_, hdone⟩, hcomplete⟩
      apply gives_trimmed (hbefore.skipBlanks_cons rfl)
      dsimp only
      rw [if_pos rfl, hdone]
      dsimp only
      rw [hcomplete.complete_eq]
      exact ⟨_, rfl⟩

/-!
# Every sound format
-/

mutual

theorem Format.readsBack : ∀ {α : Type} (format : Format α), format.isSound = true →
    format.ReadsBack
  | _, .bool, _ => Format.readsBack_bool
  | _, .text, _ => Format.readsBack_text
  | _, .list item, h => (item.readsBack h).list
  | _, .nullable item, h => by
      simp only [Format.isSound, Bool.and_eq_true, Bool.not_eq_true'] at h
      exact (item.readsBack h.right).nullable h.left
  | _, .record fields, h => by
      simp only [Format.isSound, Bool.and_eq_true, decide_eq_true_eq] at h
      exact Format.readsBack_record (fields.allReadBack h.right) h.left
  | _, .either _ left _ right, h => by
      simp only [Format.isSound, Bool.and_eq_true, bne_iff_ne] at h
      exact (left.readsBack h.right.left).either (right.readsBack h.right.right) h.left
  | _, .via inner make view make_view, h => (inner.readsBack h).via make view make_view

theorem Fields.allReadBack : ∀ {δ σ : Type} (fields : Fields δ σ), fields.areSound = true →
    fields.AllReadBack
  | _, _, .nil, _ => trivial
  | _, _, .cons _ item _ rest, h => by
      simp only [Fields.areSound, Bool.and_eq_true] at h
      exact ⟨item.readsBack h.left, rest.allReadBack h.right⟩

end

/-- A value is read from every whole text of a JSON value that shows it. -/
theorem Format.parse_eq {α : Type} {format : Format α} (hsound : format.isSound = true) {value : α}
    {json : Json} (hshows : format.Shows value json) {text : String}
    (htext : Document text json) : format.parse text = .ok value := by
  rcases htext with ⟨s, rest, hbefore, hvalue, hafter⟩
  rcases format.readsBack hsound hshows hbefore hvalue with ⟨_, hread⟩
  rw [Format.parse, hread]
  dsimp only
  rw [if_pos]
  rw [hafter.skipBlanks_eq]
  rfl

theorem Format.parse_render {α : Type} {format : Format α} (hsound : format.isSound = true)
    (value : α) : format.parse (format.write value).render = .ok value :=
  parse_eq hsound (format.shows_write value) (document_render _)

end Json

/-!
# Options and classes
-/

open Json Grammar

theorem Options.isSound_format : Options.format.isSound = true := by
  decide

theorem SourceClass.isSound_listFormat : SourceClass.listFormat.isSound = true := by
  decide

/--
The input formats lose nothing.

Options and classes are read back from the text that is written for them.  They are read
back as well from every text of a JSON value in which, in any object, the members come in
another order, there are members under unknown keys, or fields are left out that have
their fallback.
-/
theorem input_formats_round_trip (o : Options) (classes : List SourceClass) :
    Options.format.parse (Options.format.write o).render = .ok o ∧
      SourceClass.listFormat.parse (SourceClass.listFormat.write classes).render = .ok classes ∧
      Options.format.Shows o (Options.format.write o) ∧
      SourceClass.listFormat.Shows classes (SourceClass.listFormat.write classes) ∧
      (∀ json text, Options.format.Shows o json → Document text json →
        Options.format.parse text = .ok o) ∧
      ∀ json text, SourceClass.listFormat.Shows classes json → Document text json →
        SourceClass.listFormat.parse text = .ok classes :=
  ⟨Format.parse_render Options.isSound_format o,
    Format.parse_render SourceClass.isSound_listFormat classes,
    Options.format.shows_write o, SourceClass.listFormat.shows_write classes,
    fun _ _ hshows htext => Format.parse_eq Options.isSound_format hshows htext,
    fun _ _ hshows htext => Format.parse_eq SourceClass.isSound_listFormat hshows htext⟩

/-- Options with one choice, and a member under an unknown key. -/
def shortOptions : Json :=
  .obj [("remark", .arr [.null, .num (-15) (-1)]), ("id_field", .str "id")]

theorem shortOptions_shown :
    Options.format.Shows { Options.standard with idField := "id" } shortOptions := by
  refine ⟨[("id_field", .str "id")], [("remark", .arr [.null, .num (-15) (-1)])], _, ?_, ?_,
    List.Perm.swap _ _ _, rfl⟩
  · exact Or.inr ⟨rfl, Or.inr ⟨rfl, Or.inl ⟨_, _, rfl, rfl, Or.inr ⟨rfl, rfl⟩⟩⟩⟩
  · decide

/-- A class with one property, of which only what has to be given is there. -/
def bareClass : SourceClass :=
  { subject := ⟨"Book", "s:Book"⟩
    allowString := false
    facts := []
    properties := [⟨⟨"title", "s:title"⟩, [], none, false⟩]
    enumValues := [] }

/-- The class with its members the other way round, and one under an unknown key inside. -/
def bareClassReversed : Json :=
  .obj [("properties", .arr [.obj [("id", Identifier.format.write ⟨"title", "s:title"⟩)]]),
    ("subject", .obj [("label", .obj []), ("href", .str "s:Book"), ("name", .str "Book")])]

theorem bareClassReversed_shown : SourceClass.format.Shows bareClass bareClassReversed := by
  have hsubject : Identifier.format.Shows ⟨"Book", "s:Book"⟩
      (.obj [("label", .obj []), ("href", .str "s:Book"), ("name", .str "Book")]) := by
    refine ⟨[("name", .str "Book"), ("href", .str "s:Book")], [("label", .obj [])], _, ?_, ?_,
      List.reverse_perm [("name", _), ("href", _), ("label", _)], rfl⟩
    · exact Or.inl ⟨_, _, rfl, rfl, Or.inl ⟨_, _, rfl, rfl, rfl⟩⟩
    · decide
  have hproperty : Property.format.Shows ⟨⟨"title", "s:title"⟩, [], none, false⟩
      (.obj [("id", Identifier.format.write ⟨"title", "s:title"⟩)]) := by
    refine ⟨[("id", _)], [], _, ?_, ?_, List.Perm.refl _, rfl⟩
    · exact Or.inl ⟨_, _, rfl, Identifier.format.shows_write _,
        Or.inr ⟨rfl, Or.inr ⟨rfl, Or.inr ⟨rfl, rfl⟩⟩⟩⟩
    · exact List.forall_mem_nil _
  refine ⟨[("subject", _), ("properties", _)], [], _, ?_, ?_, List.Perm.swap _ _ _, rfl⟩
  · exact Or.inl ⟨_, _, rfl, hsubject, Or.inr ⟨rfl, Or.inr ⟨rfl,
      Or.inl ⟨_, _, rfl, ⟨_, rfl, .cons hproperty .nil⟩, Or.inr ⟨rfl, rfl⟩⟩⟩⟩⟩
  · exact List.forall_mem_nil _

theorem variants_read_back :
    Options.format.parse shortOptions.render = .ok { Options.standard with idField := "id" } ∧
      SourceClass.listFormat.parse (Json.arr [bareClassReversed]).render = .ok [bareClass] := by
  have hclasses : SourceClass.listFormat.Shows [bareClass] (.arr [bareClassReversed]) :=
    ⟨_, rfl, .cons bareClassReversed_shown .nil⟩
  rcases input_formats_round_trip { Options.standard with idField := "id" } [bareClass] with
    ⟨_, _, _, _, hoptions, hlist⟩
  exact ⟨hoptions _ _ shortOptions_shown (document_render _),
    hlist _ _ hclasses (document_render _)⟩

end VocabTypes
