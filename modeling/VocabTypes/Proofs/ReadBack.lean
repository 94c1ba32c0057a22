import VocabTypes.Proofs.NormalForm
import VocabTypes.Proofs.PrintedTokens

/-!
# Reading back

## The type that a text stands for

Types are read in the usual way.  A union is separated by bars and an intersection by
ampersands, which bind tighter.  What is in parentheses is read apart, and a record has
its fields in braces, with semicolons between them and possibly after the last one:

    union        = intersection ("|" intersection)*
    intersection = factor ("&" factor)*
    factor       = name | string | "(" union ")" | "{" [ field (";" field)* [";"] ] "}"
    field        = string ["?"] ":" union

The brackets that are open around the current place are kept in a list, so nesting has
no limit.
-/

namespace VocabTypes

open Text

/-!
# Drafts
-/

/-- What has been read of a type since the bracket before it. -/
structure Draft where
  /-- The arms that are complete. -/
  arms : List TypeExpr
  /-- The factors of the arm that is being read. -/
  factors : List TypeExpr

namespace Draft

def empty : Draft :=
  { arms := [], factors := [] }

def put (draft : Draft) (factor : TypeExpr) : Draft :=
  { draft with factors := draft.factors ++ [factor] }

/-- The draft after a bar. -/
def nextArm (draft : Draft) : Draft :=
  { arms := draft.arms ++ [Connective.intersection.join draft.factors], factors := [] }

/-- The type that is there if nothing more follows. -/
def close (draft : Draft) : TypeExpr :=
  Connective.union.join draft.nextArm.arms

end Draft

/-!
# The reader
-/

namespace Reader

inductive Bracket where
  | parenthesis (outside : Draft)
  /-- The brace of a record, with the fields before the one whose type is being read. -/
  | brace (outside : Draft) (fields : List Field) (name : String) (optional : Bool)

/-- What has to come next. -/
inductive Place where
  | factor (draft : Draft)
  | operator (draft : Draft)
  | key (outside : Draft) (fields : List Field)
  | colon (outside : Draft) (fields : List Field) (name : String) (optional : Bool)

/-- The text that a string stands for. -/
def text? (body : List Char) : Option String :=
  (Quoted.decode body).map String.ofList

/-- Reads what can only follow a complete type: the mark that ends it. -/
def leave (draft : Draft) (symbol : Char) : List Bracket → Option (Place × List Bracket)
  | [] => none
  | .parenthesis outside :: brackets =>
      if symbol = ')' then some (.operator (outside.put (.parenthesized draft.close)), brackets)
      else none
  | .brace outside fields name optional :: brackets =>
      let fields := fields ++ [⟨name, optional, draft.close, none⟩]
      if symbol = ';' then some (.key outside fields, brackets)
      else if symbol = '}' then some (.operator (outside.put (.record fields)), brackets)
      else none

def step (brackets : List Bracket) : Place → Token → Option (Place × List Bracket)
  | .factor draft, .name letters =>
      some (.operator (draft.put (.reference (String.ofList letters))), brackets)
  | .factor draft, .quoted body =>
      (text? body).map fun value => (.operator (draft.put (.literal value)), brackets)
  | .factor draft, .mark symbol =>
      if symbol = '(' then some (.factor .empty, .parenthesis draft :: brackets)
      else if symbol = '{' then some (.key draft [], brackets)
      else none
  | .operator draft, .mark symbol =>
      if symbol = '&' then some (.factor draft, brackets)
      else if symbol = '|' then some (.factor draft.nextArm, brackets)
      else leave draft symbol brackets
  | .key outside fields, .quoted body =>
      (text? body).map fun name => (.colon outside fields name false, brackets)
  | .key outside fields, .mark symbol =>
      if symbol = '}' then some (.operator (outside.put (.record fields)), brackets)
      else none
  | .colon outside fields name optional, .mark symbol =>
      if symbol = ':' then some (.factor .empty, .brace outside fields name optional :: brackets)
      else if symbol = '?' ∧ optional = false then
        some (.colon outside fields name true, brackets)
      else none
  | _, _ => none

def readFrom (place : Place) (brackets : List Bracket) : List Token → Option TypeExpr
  | [] =>
      match place, brackets with
      | .operator draft, [] => some draft.close
      | _, _ => none
  | token :: tokens =>
      match step brackets place token with
      | some (next, outer) => readFrom next outer tokens
      | none => none

end Reader

/-- The type that a text stands for, if it is the text of a type. -/
def TypeExpr.read? (text : String) : Option TypeExpr :=
  (tokens? text).bind (Reader.readFrom (.factor .empty) [])

/-!
# What is read from a printed type
-/

mutual

/-- A draft once the text of a type has been read. -/
def TypeExpr.readInto : TypeExpr → Draft → Draft
  | .reference name, draft => draft.put (.reference name)
  | .literal value, draft => draft.put (.literal value)
  | .union arms, draft => TypeExpr.readArmsInto arms draft
  | .intersection arms, draft => TypeExpr.readFactorsInto arms draft
  | .parenthesized inner, draft => draft.put (.parenthesized (inner.readInto .empty).close)
  | .record fields, draft => draft.put (.record (Field.readAll fields))

def TypeExpr.readArmsInto : List TypeExpr → Draft → Draft
  | [], draft => draft
  | [arm], draft => arm.readInto draft
  | arm :: second :: arms, draft =>
      TypeExpr.readArmsInto (second :: arms) (arm.readInto draft).nextArm

def TypeExpr.readFactorsInto : List TypeExpr → Draft → Draft
  | [], draft => draft
  | arm :: arms, draft =>
      TypeExpr.readFactorsInto arms
        (if arm.isWideUnion then draft.put (.parenthesized (arm.readInto .empty).close)
        else arm.readInto draft)

def Field.readAll : List Field → List Field
  | [] => []
  | ⟨name, optional, type, _⟩ :: fields =>
      ⟨name, optional, (type.readInto .empty).close, none⟩ :: Field.readAll fields

end

/-- The type that is read where a type has been printed. -/
def TypeExpr.readBack (type : TypeExpr) : TypeExpr :=
  (type.readInto .empty).close

/-- A field as it is read: without its documentation. -/
def Field.readBack (field : Field) : Field :=
  ⟨field.name, field.optional, field.type.readBack, none⟩

theorem Field.readAll_eq_map (fields : List Field) :
    Field.readAll fields = fields.map Field.readBack := by
  induction fields with
  | nil => rfl
  | cons field fields ih =>
      cases field with
      | mk name optional type comment =>
          rw [readAll, ih, List.map_cons]
          rfl

/-- An arm of an intersection as it is read: with its parentheses, if it has some. -/
def TypeExpr.readFactorInto (arm : TypeExpr) (draft : Draft) : Draft :=
  if arm.isWideUnion then draft.put (.parenthesized arm.readBack) else arm.readInto draft

theorem TypeExpr.readFactorsInto_cons (arm : TypeExpr) (arms : List TypeExpr) (draft : Draft) :
    readFactorsInto (arm :: arms) draft = readFactorsInto arms (arm.readFactorInto draft) := by
  rw [readFactorsInto]
  rfl

/-!
# Reading the tokens of a type
-/

namespace Reader

theorem text?_encode (text : String) : text? (Quoted.encode text.toList) = some text := by
  rw [text?, Quoted.decode_encode, Option.map_some, String.ofList_toList]

theorem readFrom_cons {place next : Place} {brackets outer : List Bracket} {token : Token}
    (h : step brackets place token = some (next, outer)) (tokens : List Token) :
    readFrom place brackets (token :: tokens) = readFrom next outer tokens := by
  rw [readFrom, h]

/-- Where a factor is expected, reading some tokens changes the draft and nothing else. -/
def ReadsInto (tokens : List Token) (change : Draft → Draft) : Prop :=
  ∀ draft brackets rest, readFrom (.factor draft) brackets (tokens ++ rest) =
    readFrom (.operator (change draft)) brackets rest

theorem readsInto_name (name : String) :
    ReadsInto [.name name.toList] fun draft => draft.put (.reference name) := by
  intro draft brackets rest
  have hstep : step brackets (.factor draft) (.name name.toList) =
      some (.operator (draft.put (.reference name)), brackets) := by
    rw [step, String.ofList_toList]
  exact readFrom_cons hstep rest

theorem readsInto_quoted (value : String) :
    ReadsInto [.quoted (Quoted.encode value.toList)] fun draft => draft.put (.literal value) := by
  intro draft brackets rest
  have hstep : step brackets (.factor draft) (.quoted (Quoted.encode value.toList)) =
      some (.operator (draft.put (.literal value)), brackets) := by
    rw [step, text?_encode, Option.map_some]
  exact readFrom_cons hstep rest

theorem ReadsInto.parentheses {tokens : List Token} {change : Draft → Draft}
    (h : ReadsInto tokens change) :
    ReadsInto (.mark '(' :: (tokens ++ [.mark ')']))
      fun draft => draft.put (.parenthesized (change .empty).close) := by
  intro draft brackets rest
  rw [List.cons_append, List.append_assoc]
  calc
    _ = readFrom (.factor .empty) (.parenthesis draft :: brackets)
          (tokens ++ ([.mark ')'] ++ rest)) := readFrom_cons rfl _
    _ = readFrom (.operator (change .empty)) (.parenthesis draft :: brackets)
          ([.mark ')'] ++ rest) := h _ _ _
    _ = _ := readFrom_cons rfl _

theorem readsInto_arms {arms : List TypeExpr} (hne : arms ≠ [])
    (h : ∀ arm ∈ arms, ReadsInto (arm.tokens []) arm.readInto) :
    ReadsInto ([.mark '|'].intercalate (arms.map (TypeExpr.tokens [])))
      (TypeExpr.readArmsInto arms) := by
  induction arms with
  | nil => exact absurd rfl hne
  | cons arm arms ih =>
      rcases List.forall_mem_cons.mp h with ⟨harm, harms⟩
      intro draft brackets rest
      cases arms with
      | nil =>
          rw [List.map_singleton, List.intercalate_singleton, TypeExpr.readArmsInto]
          exact harm draft brackets rest
      | cons second arms =>
          rw [intercalate_map_cons_cons, List.append_assoc, List.append_assoc, harm,
            TypeExpr.readArmsInto]
          exact (readFrom_cons rfl _).trans (ih (by simp) harms _ brackets rest)

theorem readsInto_factor {arm : TypeExpr} (h : ReadsInto (arm.tokens []) arm.readInto) :
    ReadsInto (arm.factorTokens (arm.tokens [])) arm.readFactorInto := by
  unfold TypeExpr.factorTokens TypeExpr.readFactorInto
  cases arm.isWideUnion with
  | true => exact h.parentheses
  | false => exact h

theorem readsInto_factors {arms : List TypeExpr} (hne : arms ≠ [])
    (h : ∀ arm ∈ arms, ReadsInto (arm.tokens []) arm.readInto) :
    ReadsInto
      ([.mark '&'].intercalate (arms.map fun arm => arm.factorTokens (arm.tokens [])))
      (TypeExpr.readFactorsInto arms) := by
  induction arms with
  | nil => exact absurd rfl hne
  | cons arm arms ih =>
      rcases List.forall_mem_cons.mp h with ⟨harm, harms⟩
      have hfactor := readsInto_factor harm
      intro draft brackets rest
      rw [TypeExpr.readFactorsInto_cons]
      cases arms with
      | nil =>
          rw [List.map_singleton, List.intercalate_singleton, TypeExpr.readFactorsInto]
          exact hfactor draft brackets rest
      | cons second arms =>
          rw [intercalate_map_cons_cons, List.append_assoc, List.append_assoc, hfactor]
          exact (readFrom_cons rfl _).trans (ih (by simp) harms _ brackets rest)

/-- From a key on, the field is open until its type is complete. -/
theorem readFrom_field {field : Field}
    (h : ReadsInto (field.type.tokens []) field.type.readInto) (outside : Draft)
    (fields : List Field) (brackets : List Bracket) (rest : List Token) :
    readFrom (.key outside fields) brackets (field.tokens [] ++ rest) =
      readFrom (.operator (field.type.readInto .empty))
        (.brace outside fields field.name field.optional :: brackets) rest := by
  cases field with
  | mk name optional type comment =>
      have hkey : step brackets (.key outside fields) (.quoted (Quoted.encode name.toList)) =
          some (.colon outside fields name false, brackets) := by
        rw [step, text?_encode, Option.map_some]
      have htype := h .empty (.brace outside fields name optional :: brackets) rest
      rw [Field.tokens, Field.labelTokens, List.append_assoc, List.cons_append,
        readFrom_cons hkey, ← htype]
      cases optional with
      | true => exact (readFrom_cons rfl _).trans (readFrom_cons rfl _)
      | false => exact readFrom_cons rfl _

theorem readFrom_fields {more : List Field} (hne : more ≠ [])
    (h : ∀ field ∈ more, ReadsInto (field.type.tokens []) field.type.readInto)
    (outside : Draft) (fields : List Field) (brackets : List Bracket) (rest : List Token) :
    readFrom (.key outside fields) brackets
        ([.mark ';'].intercalate (more.map (Field.tokens [])) ++ .mark '}' :: rest) =
      readFrom (.operator (outside.put (.record (fields ++ more.map Field.readBack))))
        brackets rest := by
  induction more generalizing fields with
  | nil => exact absurd rfl hne
  | cons field more ih =>
      rcases List.forall_mem_cons.mp h with ⟨hfield, hmore⟩
      cases more with
      | nil =>
          rw [List.map_singleton, List.intercalate_singleton, readFrom_field hfield]
          exact readFrom_cons rfl _
      | cons second more =>
          have hfields := ih (by simp) hmore (fields ++ [field.readBack])
          rw [List.append_assoc, List.singleton_append, ← List.map_cons] at hfields
          rw [intercalate_map_cons_cons, List.append_assoc, List.append_assoc,
            readFrom_field hfield, ← hfields]
          exact readFrom_cons rfl _

end Reader

namespace TypeExpr

/-- A union or an intersection has at least one arm. -/
def HasArms : TypeExpr → Prop
  | union arms => arms.isEmpty = false
  | intersection arms => arms.isEmpty = false
  | _ => True

instance : DecidablePred HasArms
  | union arms => inferInstanceAs (Decidable (arms.isEmpty = false))
  | intersection arms => inferInstanceAs (Decidable (arms.isEmpty = false))
  | reference _ | literal _ | parenthesized _ | record _ => isTrue trivial

open Reader in
theorem readsInto_tokens {type : TypeExpr} (h : type.Everywhere HasArms) :
    ReadsInto (type.tokens []) type.readInto := by
  induction type with
  | reference name => exact readsInto_name name
  | literal value => exact readsInto_quoted value
  | union arms ih =>
      rcases everywhere_union.mp h with ⟨hne, harms⟩
      rw [tokens, tokensOfArms_eq_map]
      exact readsInto_arms (List.isEmpty_eq_false_iff.mp hne) fun arm harm =>
        ih arm harm (harms arm harm)
  | intersection arms ih =>
      rcases everywhere_intersection.mp h with ⟨hne, harms⟩
      rw [tokens, tokensOfFactors_eq_map]
      exact readsInto_factors (List.isEmpty_eq_false_iff.mp hne) fun arm harm =>
        ih arm harm (harms arm harm)
  | parenthesized inner ih =>
      rw [tokens]
      exact (ih (everywhere_parenthesized.mp h).2).parentheses
  | record fields ih =>
      have hfields := (everywhere_record.mp h).2
      intro draft brackets rest
      cases fields with
      | nil =>
          rw [tokens]
          exact (readFrom_cons rfl _).trans (readFrom_cons rfl _)
      | cons field fields =>
          have hread := readFrom_fields (List.cons_ne_nil field fields)
            (fun field hfield => ih field hfield (hfields field hfield)) draft [] brackets rest
          rw [tokens, Field.tokensOfAll_eq_map, ← List.map_cons, readInto,
            Field.readAll_eq_map]
          rw [List.nil_append] at hread
          rw [← hread, List.cons_append, List.append_assoc, List.append_assoc]
          exact readFrom_cons rfl _

theorem read?_inline {type : TypeExpr} (hplain : type.Everywhere IsPlain)
    (harms : type.Everywhere HasArms) : read? type.inline = some type.readBack := by
  have hread := readsInto_tokens harms .empty [] []
  rw [List.append_nil] at hread
  rw [read?, (spells_inline hplain).tokens?_eq]
  exact hread

end TypeExpr
end VocabTypes
