import VocabTypes.Proofs.Nodes
import VocabTypes.Proofs.Tokens

/-!
# Printed tokens

## What the two printed forms of a type have in common

A type is printed on one line or laid out over several.  Apart from blanks, the two
forms differ in one place only: a record that is laid out has a semicolon after its
last field as well.
-/

namespace VocabTypes

open Text

/-!
# The tokens of a type
-/

/-- What stands in parentheses as an arm of an intersection. -/
def TypeExpr.factorTokens (arm : TypeExpr) (tokens : List Token) : List Token :=
  if arm.isWideUnion then .mark '(' :: (tokens ++ [.mark ')']) else tokens

/-- What stands before the type of a field. -/
def Field.labelTokens (name : String) (optional : Bool) : List Token :=
  .quoted (Quoted.encode name.toList) ::
    ((if optional then [.mark '?'] else []) ++ [.mark ':'])

mutual

/-- The tokens of a type in which every last field is followed by `last`. -/
def TypeExpr.tokens (last : List Token) : TypeExpr → List Token
  | .reference name => [.name name.toList]
  | .literal value => [.quoted (Quoted.encode value.toList)]
  | .union arms => [.mark '|'].intercalate (TypeExpr.tokensOfArms last arms)
  | .intersection arms => [.mark '&'].intercalate (TypeExpr.tokensOfFactors last arms)
  | .parenthesized inner => .mark '(' :: (inner.tokens last ++ [.mark ')'])
  | .record [] => [.mark '{', .mark '}']
  | .record (field :: fields) =>
      .mark '{' ::
        ([.mark ';'].intercalate (field.tokens last :: Field.tokensOfAll last fields) ++
          last ++ [.mark '}'])

def TypeExpr.tokensOfArms (last : List Token) : List TypeExpr → List (List Token)
  | [] => []
  | arm :: arms => arm.tokens last :: TypeExpr.tokensOfArms last arms

def TypeExpr.tokensOfFactors (last : List Token) : List TypeExpr → List (List Token)
  | [] => []
  | arm :: arms => arm.factorTokens (arm.tokens last) :: TypeExpr.tokensOfFactors last arms

def Field.tokens (last : List Token) : Field → List Token
  | ⟨name, optional, type, _⟩ =>
      Field.labelTokens name optional ++ type.tokens last

def Field.tokensOfAll (last : List Token) : List Field → List (List Token)
  | [] => []
  | field :: fields => field.tokens last :: Field.tokensOfAll last fields

end

/-!
# Lists of parts

The printers and the tokens go through a list of parts one by one.
-/

namespace TypeExpr

theorem tokensOfArms_eq_map (last : List Token) (arms : List TypeExpr) :
    tokensOfArms last arms = arms.map fun arm => arm.tokens last := by
  induction arms with
  | nil => rfl
  | cons arm arms ih => rw [tokensOfArms, ih, List.map_cons]

theorem tokensOfFactors_eq_map (last : List Token) (arms : List TypeExpr) :
    tokensOfFactors last arms = arms.map fun arm => arm.factorTokens (arm.tokens last) := by
  induction arms with
  | nil => rfl
  | cons arm arms ih => rw [tokensOfFactors, ih, List.map_cons]

theorem inlineArms_eq_map (arms : List TypeExpr) : inlineArms arms = arms.map inline := by
  induction arms with
  | nil => rfl
  | cons arm arms ih => rw [inlineArms, ih, List.map_cons]

/-- An arm of an intersection as it is printed, around its own text. -/
def grouped (arm : TypeExpr) (text : String) : String :=
  if arm.isWideUnion then "(" ++ text ++ ")" else text

theorem inlineFactors_eq_map (arms : List TypeExpr) :
    inlineFactors arms = arms.map fun arm => arm.grouped arm.inline := by
  induction arms with
  | nil => rfl
  | cons arm arms ih => rw [inlineFactors, ih, List.map_cons, grouped]

theorem layoutArms_eq_map (depth : Nat) (arms : List TypeExpr) :
    layoutArms depth arms = arms.map (layout depth) := by
  induction arms with
  | nil => rfl
  | cons arm arms ih => rw [layoutArms, ih, List.map_cons]

theorem layoutFactors_eq_map (depth : Nat) (arms : List TypeExpr) :
    layoutFactors depth arms = arms.map fun arm => arm.grouped (arm.layout depth) := by
  induction arms with
  | nil => rfl
  | cons arm arms ih => rw [layoutFactors, ih, List.map_cons, grouped]

end TypeExpr

namespace Field

theorem tokensOfAll_eq_map (last : List Token) (fields : List Field) :
    tokensOfAll last fields = fields.map (tokens last) := by
  induction fields with
  | nil => rfl
  | cons field fields ih => rw [tokensOfAll, ih, List.map_cons]

theorem inlineAll_eq_map (fields : List Field) : inlineAll fields = fields.map inline := by
  induction fields with
  | nil => rfl
  | cons field fields ih => rw [inlineAll, ih, List.map_cons]

theorem toList_layoutAll (depth : Nat) (fields : List Field) :
    (layoutAll depth fields).toList = fields.flatMap fun field => (field.layout depth).toList := by
  induction fields with
  | nil => rfl
  | cons field fields ih => rw [layoutAll, String.toList_append, ih, List.flatMap_cons]

end Field

/-!
# Conditions on nodes
-/

namespace TypeExpr

/-- A reference is to a plain name. -/
def IsPlain : TypeExpr → Prop
  | reference name => IsPlainName name
  | _ => True

/-- The fields of a record have no documentation. -/
def IsUndocumented : TypeExpr → Prop
  | record fields => ∀ field ∈ fields, field.comment = none
  | _ => True

/-- A record has no fields. -/
def IsFieldless : TypeExpr → Prop
  | record fields => fields.isEmpty = true
  | _ => True

instance : DecidablePred IsPlain
  | reference name => inferInstanceAs (Decidable (IsPlainName name))
  | literal _ | union _ | intersection _ | parenthesized _ | record _ => isTrue trivial

instance : DecidablePred IsUndocumented
  | record fields => inferInstanceAs (Decidable (∀ field ∈ fields, field.comment = none))
  | reference _ | literal _ | union _ | intersection _ | parenthesized _ => isTrue trivial

instance : DecidablePred IsFieldless
  | record fields => inferInstanceAs (Decidable (fields.isEmpty = true))
  | reference _ | literal _ | union _ | intersection _ | parenthesized _ => isTrue trivial

end TypeExpr

/-!
# The form on one line
-/

theorem spellsAnywhere_label (name : String) (optional : Bool) :
    SpellsAnywhere (quote name ++ (if optional then "?" else "") ++ ": ").toList
      (Field.labelTokens name optional) := by
  have hquote := spellsAnywhere_quote name
  rw [String.append_assoc, String.toList_append]
  cases optional with
  | true =>
      exact hquote.append (spellsAnywhere_marks ['?', ':', ' '] (by decide))
  | false => exact hquote.append (spellsAnywhere_marks [':', ' '] (by decide))

theorem Field.spells_inline {field : Field} {last : List Token}
    (h : Spells field.type.inline.toList (field.type.tokens last)) :
    Spells field.inline.toList (field.tokens last) := by
  cases field with
  | mk name optional type comment =>
      rw [inline, tokens, String.toList_append]
      exact (spellsAnywhere_label name optional).append_spells h

namespace TypeExpr

theorem spells_parentheses {text : String} {tokens : List Token}
    (h : Spells text.toList tokens) :
    Spells ("(" ++ text ++ ")").toList (.mark '(' :: (tokens ++ [.mark ')'])) := by
  have hopen := spellsAnywhere_marks ['('] (by decide)
  have hclose := h.append_marks [')'] (by decide)
  rw [String.append_assoc, String.toList_append, String.toList_append]
  exact (hopen.append hclose).spells

theorem spells_grouped {arm : TypeExpr} {text : String} {tokens : List Token}
    (h : Spells text.toList tokens) :
    Spells (arm.grouped text).toList (arm.factorTokens tokens) := by
  unfold grouped factorTokens
  cases arm.isWideUnion with
  | true => exact spells_parentheses h
  | false => exact h

/-- The text on one line is spelled by the tokens without closing semicolons. -/
theorem spells_inline {type : TypeExpr} (h : type.Everywhere IsPlain) :
    Spells type.inline.toList (type.tokens []) := by
  induction type with
  | reference name => exact spells_name (everywhere_reference.mp h)
  | literal value => exact (spellsAnywhere_quote value).spells
  | union arms ih =>
      have harms := (everywhere_union.mp h).2
      rw [inline, tokens, inlineArms_eq_map, tokensOfArms_eq_map, String.toList_intercalate,
        List.map_map]
      exact Spells.intercalate (fun arm harm => ih arm harm (harms arm harm)) _ (by decide)
  | intersection arms ih =>
      have harms := (everywhere_intersection.mp h).2
      rw [inline, tokens, inlineFactors_eq_map, tokensOfFactors_eq_map,
        String.toList_intercalate, List.map_map]
      exact Spells.intercalate (fun arm harm => spells_grouped (ih arm harm (harms arm harm))) _
        (by decide)
  | parenthesized inner ih =>
      rw [inline, tokens]
      exact spells_parentheses (ih (everywhere_parenthesized.mp h).2)
  | record fields ih =>
      have hfields := (everywhere_record.mp h).2
      cases fields with
      | nil =>
          rw [inline, tokens]
          exact (spellsAnywhere_marks ['{', '}'] (by decide)).spells
      | cons field fields =>
          have hopen := spellsAnywhere_marks ['{', ' '] (by decide)
          have hinside := Spells.intercalate
            (fun field hfield => Field.spells_inline (ih field hfield (hfields field hfield)))
            [';', ' '] (by decide)
          have hclose := hinside.append_marks [' ', '}'] (by decide)
          rw [inline, tokens, Field.inlineAll_eq_map, Field.tokensOfAll_eq_map,
            ← List.map_cons, ← List.map_cons, String.append_assoc, String.toList_append,
            String.toList_append, String.toList_intercalate, List.map_map, List.append_nil]
          exact (hopen.append hclose).spells

end TypeExpr

/-!
# The form over several lines
-/

theorem flatMap_append_eq_intercalate {α β : Type} (f : α → List β) (sep : List β) (item : α)
    (items : List α) :
    ((item :: items).flatMap fun item => f item ++ sep) =
      sep.intercalate ((item :: items).map f) ++ sep := by
  induction items generalizing item with
  | nil => simp
  | cons second items ih =>
      rw [List.flatMap_cons, ih second, intercalate_map_cons_cons, List.append_assoc,
        List.append_assoc, List.append_assoc]

theorem spellsAnywhere_indent (depth : Nat) : SpellsAnywhere (indent depth).toList [] := by
  rw [indent, String.toList_ofList]
  induction 4 * depth with
  | zero => exact spellsAnywhere_nil
  | succ width ih => exact (spellsAnywhere_marks [' '] (by decide)).append ih

theorem Field.spellsAnywhere_layout {field : Field} {depth : Nat} {last : List Token}
    (hcomment : field.comment = none)
    (h : Spells (field.type.layout depth).toList (field.type.tokens last)) :
    SpellsAnywhere (field.layout depth).toList (field.tokens last ++ [.mark ';']) := by
  cases field with
  | mk name optional type comment =>
      have hlabel := (spellsAnywhere_indent depth).append (spellsAnywhere_label name optional)
      have htype := h.append_marks [';', '\n'] (by decide)
      have htext : (layout depth ⟨name, optional, type, comment⟩).toList =
          ((indent depth).toList ++
            (quote name ++ (if optional then "?" else "") ++ ": ").toList) ++
            ((type.layout depth).toList ++ [';', '\n']) := by
        rw [layout, show comment = none from hcomment]
        simp [commentBlock?, String.toList_append]
      have htokens : tokens last ⟨name, optional, type, comment⟩ ++ [.mark ';'] =
          ([] ++ labelTokens name optional) ++ (type.tokens last ++ marks [';', '\n']) := by
        rw [tokens, List.append_assoc]
        rfl
      rw [htext, htokens]
      exact hlabel.append htype

/-- The text over several lines is spelled by the tokens with closing semicolons. -/
theorem TypeExpr.spells_layout {type : TypeExpr} (hplain : type.Everywhere IsPlain)
    (hbare : type.Everywhere IsUndocumented) (depth : Nat) :
    Spells (type.layout depth).toList (type.tokens [.mark ';']) := by
  induction type generalizing depth with
  | reference name => exact spells_name (everywhere_reference.mp hplain)
  | literal value => exact (spellsAnywhere_quote value).spells
  | union arms ih =>
      have harms := (everywhere_union.mp hplain).2
      have hbares := (everywhere_union.mp hbare).2
      rw [layout, tokens, layoutArms_eq_map, tokensOfArms_eq_map, String.toList_intercalate,
        List.map_map]
      exact Spells.intercalate
        (fun arm harm => ih arm harm (harms arm harm) (hbares arm harm) depth) _ (by decide)
  | intersection arms ih =>
      have harms := (everywhere_intersection.mp hplain).2
      have hbares := (everywhere_intersection.mp hbare).2
      rw [layout, tokens, layoutFactors_eq_map, tokensOfFactors_eq_map,
        String.toList_intercalate, List.map_map]
      exact Spells.intercalate
        (fun arm harm => spells_grouped (ih arm harm (harms arm harm) (hbares arm harm) depth)) _
        (by decide)
  | parenthesized inner ih =>
      rw [layout, tokens]
      exact spells_parentheses
        (ih (everywhere_parenthesized.mp hplain).2 (everywhere_parenthesized.mp hbare).2 depth)
  | record fields ih =>
      have hfields := (everywhere_record.mp hplain).2
      rcases everywhere_record.mp hbare with ⟨hcomments, hbares⟩
      cases fields with
      | nil =>
          rw [layout, tokens]
          exact (spellsAnywhere_marks ['{', '}'] (by decide)).spells
      | cons field fields =>
          have hopen := spellsAnywhere_marks ['{', '\n'] (by decide)
          have hinside := SpellsAnywhere.flatMap fun field hfield =>
            Field.spellsAnywhere_layout (hcomments field hfield)
              (ih field hfield (hfields field hfield) (hbares field hfield) (depth + 1))
          have hclose := (spellsAnywhere_indent depth).append
            (spellsAnywhere_marks ['}'] (by decide))
          have htext : ((record (field :: fields)).layout depth).toList =
              ['{', '\n'] ++ ((field :: fields).flatMap fun field =>
                (field.layout (depth + 1)).toList) ++ ((indent depth).toList ++ ['}']) := by
            rw [layout]
            simp [String.toList_append, Field.toList_layoutAll]
          rw [htext, tokens, Field.tokensOfAll_eq_map, ← List.map_cons,
            ← flatMap_append_eq_intercalate]
          exact ((hopen.append hinside).append hclose).spells

/-!
# Closing semicolons
-/

/-- Leaving out closing semicolons turns some tokens into others, whatever follows them. -/
def DropsTo (tokens kept : List Token) : Prop :=
  ∀ rest, dropClosing (tokens ++ rest) = kept ++ dropClosing rest

theorem intercalate_cons_eq_append_flatMap {α β : Type} (f : α → List β) (sep : List β)
    (item : α) (items : List α) :
    sep.intercalate ((item :: items).map f) =
      f item ++ items.flatMap fun item => sep ++ f item := by
  induction items generalizing item with
  | nil => simp
  | cons second items ih =>
      rw [intercalate_map_cons_cons, ih second, List.flatMap_cons, List.append_assoc]

namespace DropsTo

theorem nil : DropsTo [] [] :=
  fun _ => rfl

theorem token {token : Token} (h : token ≠ .mark ';') : DropsTo [token] [token] := by
  intro rest
  rw [List.singleton_append, dropClosing, if_neg fun hclosing => h hclosing.1]
  rfl

theorem append {tokens kept more moreKept : List Token} (h : DropsTo tokens kept)
    (hmore : DropsTo more moreKept) : DropsTo (tokens ++ more) (kept ++ moreKept) := by
  intro rest
  rw [List.append_assoc, h, hmore, List.append_assoc]

theorem cons {token : Token} {tokens kept : List Token} (hne : token ≠ .mark ';')
    (h : DropsTo tokens kept) : DropsTo (token :: tokens) (token :: kept) :=
  (DropsTo.token hne).append h

theorem semicolon {first : Token} {tokens kept : List Token} (h : DropsTo tokens kept)
    (hfirst : tokens.head? = some first) (hne : first ≠ .mark '}') :
    DropsTo (.mark ';' :: tokens) (.mark ';' :: kept) := by
  intro rest
  have hhead : ¬ (tokens ++ rest).head? = some (.mark '}') := by
    rw [List.head?_append, hfirst]
    simpa using hne
  rw [List.cons_append, dropClosing, if_neg fun hclosing => hhead hclosing.2, h rest]
  rfl

theorem flatMap {α : Type} {tokens kept : α → List Token} {items : List α}
    (h : ∀ item ∈ items, DropsTo (tokens item) (kept item)) :
    DropsTo (items.flatMap tokens) (items.flatMap kept) := by
  induction items with
  | nil => exact nil
  | cons item items ih =>
      rcases List.forall_mem_cons.mp h with ⟨hitem, hitems⟩
      rw [List.flatMap_cons, List.flatMap_cons]
      exact hitem.append (ih hitems)

theorem intercalate {α : Type} {tokens kept : α → List Token} (sep : List Token)
    {items : List α} (h : ∀ item ∈ items, DropsTo (tokens item) (kept item))
    (hsep : ∀ item ∈ items, DropsTo (sep ++ tokens item) (sep ++ kept item)) :
    DropsTo (sep.intercalate (items.map tokens)) (sep.intercalate (items.map kept)) := by
  cases items with
  | nil => exact nil
  | cons item items =>
      rw [intercalate_cons_eq_append_flatMap, intercalate_cons_eq_append_flatMap]
      exact (h item List.mem_cons_self).append
        (flatMap fun other hother => hsep other (List.mem_cons_of_mem item hother))

end DropsTo

theorem Field.head?_tokens (last : List Token) (field : Field) :
    (field.tokens last).head? = some (.quoted (Quoted.encode field.name.toList)) := by
  cases field with
  | mk name optional type comment => rw [tokens, labelTokens, List.cons_append, List.head?_cons]

theorem Field.dropsTo_tokens {field : Field} {last : List Token}
    (h : DropsTo (field.type.tokens last) (field.type.tokens [])) :
    DropsTo (field.tokens last) (field.tokens []) := by
  cases field with
  | mk name optional type comment =>
      rw [tokens, tokens]
      refine DropsTo.append ?_ h
      have hcolon : DropsTo [.mark ':'] [.mark ':'] := DropsTo.token (by decide)
      have hquestion : Token.mark '?' ≠ .mark ';' := by decide
      cases optional with
      | true => exact (hcolon.cons hquestion).cons (by simp)
      | false => exact hcolon.cons (by simp)

namespace TypeExpr

theorem dropsTo_factorTokens {arm : TypeExpr} {tokens kept : List Token}
    (h : DropsTo tokens kept) :
    DropsTo (arm.factorTokens tokens) (arm.factorTokens kept) := by
  unfold factorTokens
  cases arm.isWideUnion with
  | true => exact (h.append (DropsTo.token (by decide))).cons (by decide)
  | false => exact h

theorem dropsTo_tokens {last : List Token} (hlast : DropsTo (last ++ [.mark '}']) [.mark '}'])
    (type : TypeExpr) : DropsTo (type.tokens last) (type.tokens []) := by
  induction type with
  | reference name => exact DropsTo.token (by simp)
  | literal value => exact DropsTo.token (by simp)
  | union arms ih =>
      rw [tokens, tokens, tokensOfArms_eq_map, tokensOfArms_eq_map]
      exact DropsTo.intercalate _ ih fun arm harm => (ih arm harm).cons (by decide)
  | intersection arms ih =>
      rw [tokens, tokens, tokensOfFactors_eq_map, tokensOfFactors_eq_map]
      exact DropsTo.intercalate _ (fun arm harm => dropsTo_factorTokens (ih arm harm))
        fun arm harm => (dropsTo_factorTokens (ih arm harm)).cons (by decide)
  | parenthesized inner ih =>
      rw [tokens, tokens]
      exact (ih.append (DropsTo.token (by decide))).cons (by decide)
  | record fields ih =>
      cases fields with
      | nil => exact (DropsTo.token (by decide)).cons (by decide)
      | cons field fields =>
          have hinside := DropsTo.intercalate [.mark ';']
            (fun field hfield => Field.dropsTo_tokens (ih field hfield))
            fun field hfield => (Field.dropsTo_tokens (ih field hfield)).semicolon
              (Field.head?_tokens last field) (by simp)
          rw [tokens, tokens, Field.tokensOfAll_eq_map, Field.tokensOfAll_eq_map,
            ← List.map_cons, ← List.map_cons, List.append_assoc, List.append_nil]
          exact (hinside.append hlast).cons (by decide)

theorem dropClosing_tokens (type : TypeExpr) {last : List Token}
    (hlast : DropsTo (last ++ [.mark '}']) [.mark '}']) :
    dropClosing (type.tokens last) = type.tokens [] := by
  have hdrops := dropsTo_tokens hlast type []
  rw [List.append_nil] at hdrops
  rw [hdrops]
  exact List.append_nil _

/-!
# Agreement
-/

theorem layout_eq_inline {type : TypeExpr} (h : type.Everywhere IsFieldless) (depth : Nat) :
    type.layout depth = type.inline := by
  induction type with
  | reference name => rfl
  | literal value => rfl
  | union arms ih =>
      have harms := (everywhere_union.mp h).2
      rw [layout, inline, layoutArms_eq_map, inlineArms_eq_map]
      rw [List.map_congr_left fun arm harm => ih arm harm (harms arm harm)]
  | intersection arms ih =>
      have harms := (everywhere_intersection.mp h).2
      rw [layout, inline, layoutFactors_eq_map, inlineFactors_eq_map]
      rw [List.map_congr_left fun arm harm =>
        congrArg arm.grouped (ih arm harm (harms arm harm))]
  | parenthesized inner ih =>
      rw [layout, inline, ih (everywhere_parenthesized.mp h).2]
  | record fields ih =>
      have hnil : fields = [] := List.isEmpty_iff.mp (everywhere_record.mp h).1
      rw [hnil, layout, inline]

/--
The two printed forms of a type have the same tokens.

Names have to be plain and fields without documentation, at any depth.  A type without
fields is printed in the same way in both forms, character for character.
-/
theorem layout_agrees_with_inline (type : TypeExpr) (depth : Nat) :
    (type.Everywhere IsPlain → type.Everywhere IsUndocumented →
      ∃ laidOut onOneLine, tokens? (type.layout depth) = some laidOut ∧
        tokens? type.inline = some onOneLine ∧
          dropClosing laidOut = dropClosing onOneLine) ∧
    (type.Everywhere IsFieldless → type.layout depth = type.inline) := by
  constructor
  · intro hplain hbare
    have hlaidOut : DropsTo ([.mark ';'] ++ [.mark '}']) [.mark '}'] := fun _ => rfl
    have hinline : DropsTo ([] ++ [.mark '}']) [.mark '}'] := fun _ => rfl
    exists type.tokens [.mark ';'], type.tokens []
    refine ⟨(spells_layout hplain hbare depth).tokens?_eq, (spells_inline hplain).tokens?_eq, ?_⟩
    rw [type.dropClosing_tokens hlaidOut, type.dropClosing_tokens hinline]
  · intro hfieldless
    exact layout_eq_inline hfieldless depth

/-- A record that holds a record, after a union that is grouped. -/
def placeShape : TypeExpr :=
  .intersection [.union [.reference "Place", .literal "no \"place\""],
    .record [.mayHave "@id" (.reference "string"),
      .mustHave "geo" (.record [.mustHave "lat;\x7d" (.reference "Number")])]]

theorem layout_agrees_for_placeShape :
    (∃ laidOut onOneLine, tokens? (placeShape.layout 1) = some laidOut ∧
      tokens? placeShape.inline = some onOneLine ∧
        dropClosing laidOut = dropClosing onOneLine) ∧
      placeShape.layout 1 ≠ placeShape.inline ∧
      (union [.literal "a", .record []]).layout 1 = (union [.literal "a", .record []]).inline :=
  ⟨(layout_agrees_with_inline placeShape 1).1 (by decide) (by decide), by decide,
    (layout_agrees_with_inline _ 1).2 (by decide)⟩

end TypeExpr
end VocabTypes
