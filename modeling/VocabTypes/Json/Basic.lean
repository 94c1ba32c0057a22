/-!
# JSON values

## Values and their text

A value is written without white space.  The members of an object keep their
order, and a number is an integer with a power of ten.
-/

namespace VocabTypes

/-- A JSON value; the number `num m e` is `m` times ten to the power `e`. -/
inductive Json where
  | null
  | bool (value : Bool)
  | num (mantissa exponent : Int)
  | str (text : String)
  | arr (items : List Json)
  | obj (members : List (String × Json))
deriving Inhabited

namespace Json

/-- What passes from the parts of a value to the value holds of every value. -/
@[induction_eliminator]
theorem inductionOnParts {motive : Json → Prop} (null : motive null)
    (bool : ∀ value, motive (bool value))
    (num : ∀ mantissa exponent, motive (num mantissa exponent))
    (str : ∀ text, motive (str text))
    (arr : ∀ items, (∀ item ∈ items, motive item) → motive (arr items))
    (obj : ∀ members, (∀ member ∈ members, motive member.2) → motive (obj members))
    (json : Json) : motive json :=
  @Json.rec motive (fun items => ∀ item ∈ items, motive item)
    (fun members => ∀ member ∈ members, motive member.2) (fun member => motive member.2)
    null bool num str arr obj
    (fun _ h => nomatch h) (fun _ _ h hs => List.forall_mem_cons.mpr ⟨h, hs⟩)
    (fun _ h => nomatch h) (fun _ _ h hs => List.forall_mem_cons.mpr ⟨h, hs⟩)
    (fun _ _ h => h) json

def nat (n : Nat) : Json :=
  num n 0

/-- The value of the first member with a key, when the value is an object that has one. -/
def get? (key : String) : Json → Option Json
  | obj members => (members.find? fun member => member.1 == key).map Prod.snd
  | _ => none

def text? : Json → Option String
  | str text => some text
  | _ => none

def bool? : Json → Option Bool
  | bool value => some value
  | _ => none

def items? : Json → Option (List Json)
  | arr items => some items
  | _ => none

/-!
# Strings as JSON text
-/

/-- How one character is written inside a JSON string. -/
def escape (c : Char) : List Char :=
  if c = '"' then ['\\', '"']
  else if c = '\\' then ['\\', '\\']
  else if c = '\x08' then ['\\', 'b']
  else if c = '\x0c' then ['\\', 'f']
  else if c = '\n' then ['\\', 'n']
  else if c = '\r' then ['\\', 'r']
  else if c = '\t' then ['\\', 't']
  else if c.toNat < 0x10 then ['\\', 'u', '0', '0', '0', Nat.digitChar c.toNat]
  else if c.toNat < 0x20 then ['\\', 'u', '0', '0', '1', Nat.digitChar (c.toNat - 0x10)]
  else [c]

def quote (text : String) : String :=
  String.ofList ('"' :: (text.toList.flatMap escape ++ ['"']))

/-!
# Values as JSON text
-/

mutual

def render : Json → String
  | null => "null"
  | bool true => "true"
  | bool false => "false"
  | num mantissa exponent =>
      if exponent = 0 then toString mantissa else toString mantissa ++ "e" ++ toString exponent
  | str text => quote text
  | arr items => "[" ++ ",".intercalate (renderItems items) ++ "]"
  | obj members => "\x7b" ++ ",".intercalate (renderMembers members) ++ "\x7d"

def renderItems : List Json → List String
  | [] => []
  | item :: items => item.render :: renderItems items

def renderMembers : List (String × Json) → List String
  | [] => []
  | (key, value) :: members => (quote key ++ ":" ++ value.render) :: renderMembers members

end

end Json

end VocabTypes
