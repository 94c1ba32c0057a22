import Mathlib.Tactic.IntervalCases
import VocabTypes.Json.Strings
import VocabTypes.Text

/-!
# Decoding

## The text that a string literal stands for

What is written between the quotes of a literal is read from the left.  A backslash
starts an escape: a letter for one of the usual characters, or a code point in base
sixteen between braces.  Decoding takes back what quoting wrote.
-/

namespace VocabTypes
namespace Text
namespace Quoted

/-!
# Reading a literal
-/

/-- Where reading the inside of a literal has got to. -/
inductive Position where
  | plain
  /-- After a backslash. -/
  | escape
  /-- After the letter that announces a code point. -/
  | brace
  /-- Among the digits of a code point, with the value of those read. -/
  | digits (value : Option Nat)

/-- The character with a code point, if there is one. -/
def char? (value : Nat) : Option Char :=
  if value.isValidChar then some (Char.ofNat value) else none

def decodeFrom : Position → List Char → Option (List Char)
  | .plain, [] => some []
  | _, [] => none
  | .plain, c :: rest =>
      if c = '\\' then decodeFrom .escape rest
      else if c = '"' ∨ c = '\n' ∨ c = '\r' then none
      else (decodeFrom .plain rest).map (c :: ·)
  | .escape, c :: rest =>
      if c = 'u' then decodeFrom .brace rest
      else
        match Json.escapedLetter? c with
        | some letter => (decodeFrom .plain rest).map (letter :: ·)
        | none => none
  | .brace, c :: rest => if c = '{' then decodeFrom (.digits none) rest else none
  | .digits value, c :: rest =>
      if c = '}' then
        match value.bind char? with
        | some letter => (decodeFrom .plain rest).map (letter :: ·)
        | none => none
      else
        match Json.hexValue? c with
        | some digit => decodeFrom (.digits (some (value.getD 0 * 16 + digit))) rest
        | none => none

/-- The text that the inside of a literal stands for, if it is one. -/
def decode (body : List Char) : Option (List Char) :=
  decodeFrom .plain body

/-!
# How a character is written
-/

/-- A character is written as an escaped letter, as a code point, or as itself. -/
inductive Written (c : Char) : List Char → Prop where
  | letter (letter : Char) (hletter : Json.escapedLetter? letter = some c)
      (hcode : letter ≠ 'u') : Written c ['\\', letter]
  | code : Written c ('\\' :: 'u' :: '{' :: (Nat.toDigits 16 c.toNat ++ ['}']))
  | plain (hquote : c ≠ '"') (hslash : c ≠ '\\') (hcontrol : isControl c = false) :
      Written c [c]

theorem written_escape (c : Char) : Written c (escape c) := by
  unfold escape
  split
  · next h => exact .letter '"' (by rw [h]; decide) (by decide)
  split
  · next h => exact .letter '\\' (by rw [h]; decide) (by decide)
  split
  · next h => exact .letter 'n' (by rw [h]; decide) (by decide)
  split
  · next h => exact .letter 'r' (by rw [h]; decide) (by decide)
  split
  · next h => exact .letter 't' (by rw [h]; decide) (by decide)
  split
  · exact .code
  · next hquote hslash _ _ _ hcontrol =>
      exact .plain hquote hslash (Bool.eq_false_iff.mpr hcontrol)

/-!
# Digits
-/

theorem exists_digitChar_of_mem_toDigits {n : Nat} {c : Char} (h : c ∈ Nat.toDigits 16 n) :
    ∃ digit < 16, c = digit.digitChar := by
  induction n using Nat.strongRecOn with
  | ind n ih =>
      rw [Nat.toDigits_eq_if (by decide)] at h
      split at h
      · next hsmall => exact ⟨n, hsmall, List.mem_singleton.mp h⟩
      · next hlarge =>
          rcases List.mem_append.mp h with hfront | hlast
          · exact ih (n / 16) (by omega) hfront
          · exact ⟨n % 16, Nat.mod_lt n (by decide), List.mem_singleton.mp hlast⟩

theorem ne_of_mem_toDigits {n : Nat} {c : Char} (h : c ∈ Nat.toDigits 16 n) :
    c ≠ '"' ∧ c ≠ '\\' := by
  rcases exists_digitChar_of_mem_toDigits h with ⟨digit, hdigit, rfl⟩
  interval_cases digit <;> decide

theorem decodeFrom_digit {c : Char} {digit : Nat} (h : Json.hexValue? c = some digit)
    (value : Option Nat) (rest : List Char) :
    decodeFrom (.digits value) (c :: rest) =
      decodeFrom (.digits (some (value.getD 0 * 16 + digit))) rest := by
  have hbrace : c ≠ '}' := by
    intro hc
    rw [hc, show Json.hexValue? '}' = none by decide] at h
    cases h
  rw [decodeFrom, if_neg hbrace, h]

theorem decodeFrom_toDigits (n : Nat) (rest : List Char) :
    decodeFrom (.digits none) (Nat.toDigits 16 n ++ rest) =
      decodeFrom (.digits (some n)) rest := by
  induction n using Nat.strongRecOn generalizing rest with
  | ind n ih =>
      rw [Nat.toDigits_eq_if (by decide)]
      split
      · next hsmall =>
          rw [List.singleton_append, decodeFrom_digit (Json.hexValue?_digitChar n hsmall)]
          simp
      · next hlarge =>
          have hlast : n % 16 < 16 := Nat.mod_lt n (by decide)
          rw [List.append_assoc, ih (n / 16) (by omega), List.singleton_append,
            decodeFrom_digit (Json.hexValue?_digitChar _ hlast), Option.getD_some,
            Nat.div_add_mod']

/-!
# Decoding what was encoded
-/

theorem char?_toNat (c : Char) : char? c.toNat = some c := by
  have hvalid : c.toNat.isValidChar := c.valid
  rw [char?, if_pos hvalid, Char.ofNat_toNat]

theorem decodeFrom_escape (c : Char) (rest : List Char) :
    decodeFrom .plain (escape c ++ rest) = (decodeFrom .plain rest).map (c :: ·) := by
  have hwritten := written_escape c
  generalize escape c = written at hwritten ⊢
  cases hwritten with
  | letter letter hletter hcode => simp [decodeFrom, hletter, hcode]
  | code => simp [decodeFrom, decodeFrom_toDigits c.toNat ('}' :: rest), char?_toNat]
  | plain hquote hslash hcontrol =>
      have hfeed : c ≠ '\n' := by
        rintro rfl
        cases hcontrol
      have hreturn : c ≠ '\r' := by
        rintro rfl
        cases hcontrol
      simp [decodeFrom, hquote, hslash, hfeed, hreturn]

theorem decode_encode (text : List Char) : decode (encode text) = some text := by
  unfold decode encode
  induction text with
  | nil => rfl
  | cons c text ih => rw [List.flatMap_cons, decodeFrom_escape, ih, Option.map_some]

end Quoted
end Text
end VocabTypes
