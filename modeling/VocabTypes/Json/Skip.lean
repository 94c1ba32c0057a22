import VocabTypes.Json.Numeral
import VocabTypes.Json.Strings

/-!
# Passing over values

## Values that no format asks for

The value of an unknown key is passed over, whatever it is.  The brackets that
are open around the current place are kept in a list, so nesting has no limit.
-/

namespace VocabTypes
namespace Json

inductive Bracket where
  | list
  | object
deriving DecidableEq

def Bracket.close : Bracket → Char
  | list => ']'
  | object => '}'

/-- Where passing over a value has got to. -/
inductive Place where
  | value
  | opened
  | closed

def skipScalar : Reader Unit
  | [] => .error .unfinished
  | c :: rest =>
      if c = 'n' then (word ['n', 'u', 'l', 'l'] (c :: rest)).widen (length_after_four_le c rest)
      else if c = 't' then
        (word ['t', 'r', 'u', 'e'] (c :: rest)).widen (length_after_four_le c rest)
      else if c = 'f' then
        (word ['f', 'a', 'l', 's', 'e'] (c :: rest)).widen (length_after_five_le c rest)
      else if c = '"' then (skipString rest).widen (length_le_succ rest)
      else if c = '-' ∨ c.isDigit then (numeral .malformed (c :: rest)).map fun _ => ()
      else .error .malformed

def skipKey : Reader Unit
  | [] => .error .unfinished
  | c :: rest =>
      if c = '"' then ((skipString rest).andThen fun _ => mark ':').widen (length_le_succ rest)
      else .error .malformed

/-- Passes over what stands before a value in a bracket: nothing in a list, a key in an object. -/
def skipLabel (bracket : Bracket) (s : List Char) : Outcome (s.length + 1) Unit :=
  match bracket with
  | .list => .ok ⟨(), s, length_lt_succ s⟩
  | .object => (skipKey.trimmed s).widen (length_le_succ s)

def Place.distance : Place → Nat
  | value => 0
  | opened => 1
  | closed => 2

/--
Passes over the rest of a value, and over what is open around it.

The answer is the text after the outermost of the open brackets.
-/
def skip (place : Place) (brackets : List Bracket) (s : List Char) :
    Except Fault (List Char) :=
  match place, brackets with
  | .value, brackets =>
      match _h : skipBlanks s with
      | [] => .error .unfinished
      | c :: rest =>
          if c = '[' then skip .opened (.list :: brackets) rest
          else if c = '\x7b' then skip .opened (.object :: brackets) rest
          else
            match skipScalar (c :: rest) with
            | .error fault => .error fault
            | .ok r => skip .closed brackets r.rest
  | .opened, [] => .ok s
  | .opened, bracket :: brackets =>
      match _h : skipBlanks s with
      | [] => .error .unfinished
      | c :: rest =>
          if c = bracket.close then skip .closed brackets rest
          else
            match skipLabel bracket (c :: rest) with
            | .error fault => .error fault
            | .ok r => skip .value (bracket :: brackets) r.rest
  | .closed, [] => .ok s
  | .closed, bracket :: brackets =>
      match _h : skipBlanks s with
      | [] => .error .unfinished
      | c :: rest =>
          if c = bracket.close then skip .closed brackets rest
          else if c = ',' then
            match skipLabel bracket rest with
            | .error fault => .error fault
            | .ok r => skip .value (bracket :: brackets) r.rest
          else .error .malformed
termination_by (s.length, place.distance)
decreasing_by
  all_goals
    have shorter := length_skipBlanks_le s
    simp only [_h, List.length_cons] at shorter
  · exact Prod.Lex.left _ _ (by omega)
  · exact Prod.Lex.left _ _ (by omega)
  · have := r.shorter
    exact Prod.Lex.left _ _ (by simp at this; omega)
  · exact Prod.Lex.left _ _ (by omega)
  · have := r.shorter
    exact Prod.Lex.right' _ (by simp at this; omega) (by simp [Place.distance])
  · exact Prod.Lex.left _ _ (by omega)
  · have := r.shorter
    exact Prod.Lex.left _ _ (by omega)

/-- Passing over something never lengthens the text, and a whole value shortens it. -/
theorem length_skip {place : Place} {brackets : List Bracket} {s rest : List Char}
    (h : skip place brackets s = .ok rest) :
    rest.length ≤ s.length ∧ (place = .value → rest.length < s.length) := by
  fun_induction skip place brackets s generalizing rest with
  | case5 _ _ _ _ _ _ _ r =>
      have := r.shorter
      grind [length_skipBlanks_le]
  | case10 _ _ _ _ _ _ _ r =>
      have := r.shorter
      grind [length_skipBlanks_le]
  | case15 _ _ _ _ r =>
      have := r.shorter
      grind [length_skipBlanks_le]
  | _ => grind [length_skipBlanks_le]

def skipValue : Reader Unit := fun s =>
  match h : skip .value [] s with
  | .error fault => .error fault
  | .ok rest => .ok ⟨(), rest, (length_skip h).2 rfl⟩

/-- The fault of a text whose next value, if there is one, is not of the expected kind. -/
def mismatch : List Char → Fault
  | [] => .unfinished
  | c :: rest =>
      if c = 'n' then (word ['n', 'u', 'l', 'l'] (c :: rest)).faultOr .unfit
      else if c = 't' then (word ['t', 'r', 'u', 'e'] (c :: rest)).faultOr .unfit
      else if c = 'f' then (word ['f', 'a', 'l', 's', 'e'] (c :: rest)).faultOr .unfit
      else if c = '"' then (stringBody rest).faultOr .unfit
      else if c = '[' ∨ c = '\x7b' then .unfit
      else if c = '-' ∨ c.isDigit then
        match numeral .unfinished (c :: rest) with
        | .error fault => fault
        | .ok r => if r.value.inRange then .unfit else .malformed
      else .malformed

end Json
end VocabTypes
