import VocabTypes.Json.Reader

/-!
# Reading strings

## The text between two quotes

A string that is used has to stand for a text, so an escaped surrogate needs its
partner.  A string that is passed over only has to be well formed.
-/

namespace VocabTypes
namespace Json

/-!
# Escapes
-/

def hexValue? (c : Char) : Option Nat :=
  if c.isDigit then some (c.toNat - '0'.toNat)
  else if 'a' ≤ c ∧ c ≤ 'f' then some (c.toNat - 'a'.toNat + 10)
  else if 'A' ≤ c ∧ c ≤ 'F' then some (c.toNat - 'A'.toNat + 10)
  else none

theorem hexValue?_digitChar : ∀ n < 16, hexValue? (Nat.digitChar n) = some n := by
  decide

def hexNumber? (a b c d : Char) : Option Nat := do
  let a ← hexValue? a
  let b ← hexValue? b
  let c ← hexValue? c
  let d ← hexValue? d
  return ((a * 16 + b) * 16 + c) * 16 + d

def fewerThanFourBytes (s : List Char) : Bool :=
  ((s.take 4).map Char.utf8Size).foldr Nat.add 0 < 4

def codeUnit : Reader Nat := fun s =>
  if fewerThanFourBytes s then
    .error .unfinished
  else
    match s with
    | a :: b :: c :: d :: rest =>
        match hexNumber? a b c d with
        | some n => .ok ⟨n, rest, by simp; omega⟩
        | none => .error .malformed
    | _ => .error .malformed

def isLeading (n : Nat) : Bool :=
  0xd800 ≤ n && n < 0xdc00

def isTrailing (n : Nat) : Bool :=
  0xdc00 ≤ n && n < 0xe000

def joinPair (leading trailing : Nat) : Char :=
  Char.ofNat (0x10000 + (leading - 0xd800) * 0x400 + (trailing - 0xdc00))

/-- Reads the second half of a pair whose first half is `leading`. -/
def partner (leading : Nat) : Reader Char
  | [] => .error .unfinished
  | '\\' :: [] => .error .unfinished
  | '\\' :: 'u' :: s =>
      match codeUnit s with
      | .error fault => .error fault
      | .ok r =>
          if isTrailing r.value then
            .ok ⟨joinPair leading r.value, r.rest, by
              have := r.shorter
              simp
              omega⟩
          else
            .error .malformed
  | _ => .error .malformed

/-- Reads the character that an escaped code unit, or a pair of them, stands for. -/
def escapedUnit (s : List Char) : Outcome s.length Char :=
  match codeUnit s with
  | .error fault => .error fault
  | .ok r =>
      if isTrailing r.value then .error .malformed
      else if isLeading r.value then
        (partner r.value r.rest).widen (Nat.le_of_lt r.shorter)
      else .ok (r.map Char.ofNat)

/-- The character that a letter after a backslash stands for. -/
def escapedLetter? (c : Char) : Option Char :=
  if c = '"' then some '"'
  else if c = '\\' then some '\\'
  else if c = '/' then some '/'
  else if c = 'b' then some '\x08'
  else if c = 'f' then some '\x0c'
  else if c = 'n' then some '\n'
  else if c = 'r' then some '\r'
  else if c = 't' then some '\t'
  else none

/-- Reads what follows a backslash, with `unit` for an escaped code unit. -/
def escaped (unit : Reader Char) : Reader Char
  | [] => .error .unfinished
  | c :: rest =>
      if c = 'u' then (unit rest).widen (length_le_succ rest)
      else
        match escapedLetter? c with
        | some letter => .ok ⟨letter, rest, length_lt_succ rest⟩
        | none => .error .malformed

/-!
# Strings
-/

/-- Reads a string after its opening quote, with `unit` for an escaped code unit. -/
def stringWith (unit : Reader Char) (s : List Char) : Outcome s.length (List Char) :=
  match s with
  | [] => .error .unfinished
  | c :: rest =>
      if c = '"' then .ok ⟨[], rest, length_lt_succ rest⟩
      else if c = '\\' then
        match escaped unit rest with
        | .error fault => .error fault
        | .ok r =>
            ((stringWith unit r.rest).map (r.value :: ·)).widen (by
              have := r.shorter
              simp
              omega)
      else if c.toNat < 0x20 then .error .malformed
      else ((stringWith unit rest).map (c :: ·)).widen (length_le_succ rest)
termination_by s.length
decreasing_by
  · have := r.shorter
    simp
    omega
  · simp

def stringBody (s : List Char) : Outcome s.length String :=
  (stringWith escapedUnit s).map String.ofList

/-- Passes over a string after its opening quote, lone surrogates included. -/
def skipString (s : List Char) : Outcome s.length Unit :=
  (stringWith (fun s => (codeUnit s).map fun _ => ' ') s).map fun _ => ()

end Json
end VocabTypes
