import VocabTypes.Json.Basic
import VocabTypes.Json.Skip

/-!
# Formats

## Reading and writing values of a type

A format says how the values of a type are written as JSON and read back.  A
record is written as an object with all its fields.  It is read from an object
with the fields in any order, where unknown keys are passed over and fields with a
fallback may be missing, or from an array with the fields in their order.
-/

namespace VocabTypes
namespace Json

mutual

/-- How the values of a type are written and read. -/
inductive Format : Type → Type 1 where
  | bool : Format Bool
  | text : Format String
  | list {α : Type} (item : Format α) : Format (List α)
  /-- A value that may be `null`. -/
  | nullable {α : Type} (item : Format α) : Format (Option α)
  | record {δ σ : Type} (fields : Fields δ σ) : Format σ
  /-- An object with one member, whose key says which of two formats its value has. -/
  | either {α β : Type} (leftKey : String) (left : Format α) (rightKey : String)
      (right : Format β) : Format (α ⊕ β)
  /-- The format of another type that holds the same data. -/
  | via {α β : Type} (inner : Format α) (make : α → β) (view : β → α)
      (make_view : ∀ b, make (view b) = b) : Format β

/--
The fields of a record, by their keys.

The first index is the type of drafts, in which every field may be missing, and
the second the type of the finished fields.
-/
inductive Fields : Type → Type → Type 1 where
  | nil : Fields Unit Unit
  | cons {α δ σ : Type} (key : String) (item : Format α) (fallback : Option α)
      (rest : Fields δ σ) : Fields (Option α × δ) (α × σ)

end

/-!
# Writing
-/

mutual

def Format.write : {α : Type} → Format α → α → Json
  | _, .bool, value => .bool value
  | _, .text, value => .str value
  | _, .list item, values => .arr (values.map item.write)
  | _, .nullable _, none => .null
  | _, .nullable item, some value => item.write value
  | _, .record fields, values => .obj (fields.write values)
  | _, .either leftKey left _ _, .inl value => .obj [(leftKey, left.write value)]
  | _, .either _ _ rightKey right, .inr value => .obj [(rightKey, right.write value)]
  | _, .via inner _ view _, value => inner.write (view value)

def Fields.write : {δ σ : Type} → Fields δ σ → σ → List (String × Json)
  | _, _, .nil, _ => []
  | _, _, .cons key item _ rest, (value, values) => (key, item.write value) :: rest.write values

end

/-!
# Drafts

The fields of a record that have been read so far.
-/

def Fields.blank : {δ σ : Type} → Fields δ σ → δ
  | _, _, .nil => ()
  | _, _, .cons _ _ _ rest => (none, rest.blank)

/-- The record of a draft, with fallbacks for missing fields, unless one has none. -/
def Fields.complete : {δ σ : Type} → Fields δ σ → δ → Option σ
  | _, _, .nil, _ => some ()
  | _, _, .cons _ _ fallback rest, (draft, drafts) =>
      match draft.or fallback, rest.complete drafts with
      | some value, some values => some (value, values)
      | _, _ => none

/-- What a key means to a draft. -/
inductive Slot (δ : Type) where
  /-- No field has this key. -/
  | unknown
  /-- The field with this key has been read already. -/
  | taken
  /-- The field with this key comes next and is read into the draft. -/
  | vacant (fill : Reader δ)

namespace Slot

def map (f : δ → ε) : Slot δ → Slot ε
  | unknown => unknown
  | taken => taken
  | vacant fill => vacant fun s => (fill s).map f

end Slot

/-!
# Members and items
-/

def keyHere : Reader String
  | [] => .error .unfinished
  | c :: rest =>
      if c = '"' then (stringBody rest).widen (length_le_succ rest) else .error .malformed

/-- Reads the key of the next member of an object, or the brace that closes it. -/
def nextKey (first : Bool) : Reader (Option String) :=
  Reader.trimmed fun
    | [] => .error .unfinished
    | c :: rest =>
        if c = '\x7d' then .ok ⟨none, rest, length_lt_succ rest⟩
        else if first then (keyHere (c :: rest)).map some
        else if c = ',' then ((keyHere.trimmed rest).map some).widen (length_le_succ rest)
        else .error .malformed

/-- Reads the members of an object into a draft, up to the brace that closes it. -/
def members (slot : String → δ → Slot δ) (first : Bool) (draft : δ) (s : List Char) :
    Outcome s.length δ :=
  match nextKey first s with
  | .error fault => .error fault
  | .ok ⟨none, rest, shorter⟩ => .ok ⟨draft, rest, shorter⟩
  | .ok ⟨some key, rest, shorter⟩ =>
      match slot key draft with
      | .taken => .error .unfit
      | .unknown =>
          match (mark ':' rest).andThen fun _ => skipValue with
          | .error fault => .error fault
          | .ok r =>
              (members slot false draft r.rest).widen (by
                have := r.shorter
                omega)
      | .vacant fill =>
          match (mark ':' rest).andThen fun _ => fill with
          | .error fault => .error fault
          | .ok r =>
              (members slot false r.value r.rest).widen (by
                have := r.shorter
                omega)
termination_by s.length
decreasing_by
  all_goals
    have := r.shorter
    omega

/-- Passes over what stands before the next item of an array, or reads the closing bracket. -/
def nextItem (first : Bool) (s : List Char) : Outcome (s.length + 1) Bool :=
  match h : skipBlanks s with
  | [] => .error .unfinished
  | c :: rest =>
      have shorter := length_lt_of_skipBlanks h
      if c = ']' then .ok ⟨false, rest, shorter⟩
      else if first then .ok ⟨true, s, length_lt_succ s⟩
      else if c = ',' then .ok ⟨true, rest, shorter⟩
      else .error .malformed

def items (item : Reader α) (first : Bool) (s : List Char) : Outcome (s.length + 1) (List α) :=
  match nextItem first s with
  | .error fault => .error fault
  | .ok ⟨false, rest, shorter⟩ => .ok ⟨[], rest, shorter⟩
  | .ok ⟨true, rest, shorter⟩ =>
      match item rest with
      | .error fault => .error fault
      | .ok r =>
          ((items item false r.rest).map (r.value :: ·)).widen (by
            have := r.shorter
            omega)
termination_by s.length
decreasing_by
  have := r.shorter
  omega

/-!
# Reading
-/

def readBool : Reader Bool :=
  Reader.trimmed fun
    | [] => .error .unfinished
    | c :: rest =>
        if c = 't' then
          ((word ['t', 'r', 'u', 'e'] (c :: rest)).map fun _ => true).widen
            (length_after_four_le c rest)
        else if c = 'f' then
          ((word ['f', 'a', 'l', 's', 'e'] (c :: rest)).map fun _ => false).widen
            (length_after_five_le c rest)
        else .error (mismatch (c :: rest))

def readText : Reader String :=
  Reader.trimmed fun
    | [] => .error .unfinished
    | c :: rest =>
        if c = '"' then (stringBody rest).widen (length_le_succ rest)
        else .error (mismatch (c :: rest))

def readList (item : Reader α) : Reader (List α) :=
  Reader.trimmed fun
    | [] => .error .unfinished
    | c :: rest => if c = '[' then items item true rest else .error (mismatch (c :: rest))

def readNullable (item : Reader α) : Reader (Option α) :=
  Reader.trimmed fun
    | [] => .error .unfinished
    | c :: rest =>
        if c = 'n' then
          ((word ['n', 'u', 'l', 'l'] (c :: rest)).map fun _ => none).widen
            (length_after_four_le c rest)
        else (item (c :: rest)).map some

/-- Reads an object or an array that holds the fields of a record. -/
def readRecord (slot : String → δ → Slot δ) (blank : δ) (complete : δ → Option σ)
    (inOrder : (s : List Char) → Outcome (s.length + 1) σ) : Reader σ :=
  Reader.trimmed fun
    | [] => .error .unfinished
    | c :: rest =>
        if c = '\x7b' then
          match members slot true blank rest with
          | .error fault => .error fault
          | .ok r =>
              match complete r.value with
              | some values => .ok ⟨values, r.rest, Nat.lt_succ_of_lt r.shorter⟩
              | none => .error .unfit
        else if c = '[' then inOrder rest
        else .error (mismatch (c :: rest))

/-- Reads the value under a known key, and the brace after it. -/
def readUnder (item : Reader α) : Reader α := fun s =>
  ((mark ':' s).andThen fun _ => item).andThen fun value s => (mark '\x7d' s).map fun _ => value

/-- Reads an object with one member, which has one of two keys. -/
def readEither (leftKey : String) (left : Reader α) (rightKey : String) (right : Reader β) :
    Reader (α ⊕ β) :=
  Reader.trimmed fun
    | [] => .error .unfinished
    | c :: rest =>
        if c = '\x7b' then
          ((keyHere.trimmed rest).andThen fun key s =>
            if key = leftKey then (readUnder left s).map .inl
            else if key = rightKey then (readUnder right s).map .inr
            else .error .unfit).widen (length_le_succ rest)
        else if c = '"' then .error ((stringBody rest).faultOr .unfit)
        else .error .malformed

def closingBracket (s : List Char) : Outcome (s.length + 1) Unit :=
  (mark ']' s).widen (Nat.le_succ _)

mutual

def Format.read : {α : Type} → Format α → Reader α
  | _, .bool => readBool
  | _, .text => readText
  | _, .list item => readList item.read
  | _, .nullable item => readNullable item.read
  | _, .record fields =>
      readRecord fields.slot fields.blank fields.complete (fields.readInOrder true)
  | _, .either leftKey left rightKey right => readEither leftKey left.read rightKey right.read
  | _, .via inner make _ _ => fun s => (inner.read s).map make

def Fields.slot : {δ σ : Type} → Fields δ σ → String → δ → Slot δ
  | _, _, .nil => fun _ _ => .unknown
  | _, _, .cons own item _ rest => fun key (draft, drafts) =>
      if key = own then
        if draft.isSome then .taken
        else .vacant fun s => (item.read s).map fun value => (some value, drafts)
      else (rest.slot key drafts).map fun drafts => (draft, drafts)

def Fields.readInOrder : {δ σ : Type} → Fields δ σ → (first : Bool) →
    (s : List Char) → Outcome (s.length + 1) σ
  | _, _, .nil => fun _ s => closingBracket s
  | _, _, .cons key item fallback rest => fun first s =>
      match nextItem first s with
      | .error fault => .error fault
      | .ok ⟨false, unread, shorter⟩ =>
          match (Fields.cons key item fallback rest).complete (none, rest.blank) with
          | some values => .ok ⟨values, unread, shorter⟩
          | none => .error .unfit
      | .ok ⟨true, unread, shorter⟩ =>
          match item.read unread with
          | .error fault => .error fault
          | .ok r =>
              ((rest.readInOrder false r.rest).map fun values => (r.value, values)).widen (by
                have := r.shorter
                omega)

end

/-- The value that a whole text stands for; blanks may surround it. -/
def Format.parse (format : Format α) (text : String) : Except Fault α :=
  match format.read text.toList with
  | .error fault => .error fault
  | .ok r => if skipBlanks r.rest = [] then .ok r.value else .error .malformed

end Json
end VocabTypes
