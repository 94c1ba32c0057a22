import VocabTypes.Json.Reader

/-!
# Reading numbers

## Numerals and the range of doubles

No format has a number in it, so numbers are met only where something else is
expected, or where a value is passed over.  In the first case a numeral that is
too large for a double counts as malformed.
-/

namespace VocabTypes
namespace Json

/-!
# Numerals
-/

/-- An unsigned number as it is written, by its digits. -/
structure Numeral where
  whole : List Nat
  fraction : List Nat
  exponent : Int

def digits (s : List Char) : List Nat :=
  (s.takeWhile Char.isDigit).map fun c => c.toNat - '0'.toNat

def afterDigits (s : List Char) : List Char :=
  s.dropWhile Char.isDigit

theorem length_afterDigits_le (s : List Char) : (afterDigits s).length ≤ s.length :=
  (List.dropWhile_sublist Char.isDigit).length_le

/-- Reads one digit or more, with a fault for a text that ends here. -/
def someDigits (atEnd : Fault) : Reader (List Nat)
  | [] => .error atEnd
  | c :: rest =>
      if c.isDigit then
        .ok ⟨digits (c :: rest), afterDigits rest, by
          have := length_afterDigits_le rest
          simp
          omega⟩
      else .error .malformed

/-- Reads the digits before the point, which do not start with a superfluous zero. -/
def wholePart (atEnd : Fault) : Reader (List Nat)
  | '0' :: c :: rest => if c.isDigit then .error .malformed else .ok ⟨[0], c :: rest, by simp⟩
  | s => someDigits atEnd s

def fractionPart (atEnd : Fault) : (s : List Char) → Outcome (s.length + 1) (List Nat)
  | '.' :: rest => (someDigits atEnd rest).widen (by simp; omega)
  | s => .ok ⟨[], s, length_lt_succ s⟩

/-- The number that some decimal digits stand for. -/
def ofDigits (ds : List Nat) : Nat :=
  ds.foldl (fun n d => n * 10 + d) 0

def signedDigits (atEnd : Fault) : Reader Int
  | '-' :: rest =>
      ((someDigits atEnd rest).map fun ds => -Int.ofNat (ofDigits ds)).widen (length_le_succ rest)
  | '+' :: rest =>
      ((someDigits atEnd rest).map fun ds => Int.ofNat (ofDigits ds)).widen (length_le_succ rest)
  | s => (someDigits atEnd s).map fun ds => Int.ofNat (ofDigits ds)

def exponentPart (atEnd : Fault) : (s : List Char) → Outcome (s.length + 1) Int
  | [] => .ok ⟨0, [], by simp⟩
  | c :: rest =>
      if c = 'e' ∨ c = 'E' then (signedDigits atEnd rest).widen (by simp; omega)
      else .ok ⟨0, c :: rest, by simp⟩

/-- Reads a number without its sign, with a fault for a text that ends inside it. -/
def unsignedNumeral (atEnd : Fault) : Reader Numeral := fun s =>
  match wholePart atEnd s with
  | .error fault => .error fault
  | .ok whole =>
      match fractionPart atEnd whole.rest with
      | .error fault => .error fault
      | .ok fraction =>
          match exponentPart atEnd fraction.rest with
          | .error fault => .error fault
          | .ok exponent =>
              .ok ⟨⟨whole.value, fraction.value, exponent.value⟩, exponent.rest, by
                have := whole.shorter
                have := fraction.shorter
                have := exponent.shorter
                omega⟩

def numeral (atEnd : Fault) : Reader Numeral
  | '-' :: rest => (unsignedNumeral atEnd rest).widen (length_le_succ rest)
  | s => unsignedNumeral atEnd s

/-!
# The range of doubles

A numeral is rounded in two steps.  Its digits are cut to a significand of 64
bits, and the significand and the power of ten are each rounded to a double before
they are multiplied.
-/

/-- Appends digits to a significand while it fits into 64 bits; the digits that did not. -/
def absorb (significand : Nat) : List Nat → Nat × List Nat
  | [] => (significand, [])
  | d :: ds =>
      if significand * 10 + d < 2 ^ 64 then absorb (significand * 10 + d) ds
      else (significand, d :: ds)

/-- The nearest number with 53 significant bits; a tie goes to the even one. -/
def roundTo53 (n : Nat) : Nat :=
  if n < Nat.pow 2 53 then n
  else
    let unit := Nat.pow 2 (n.log2 - 52)
    let quotient := n / unit
    let remainder := n % unit
    if 2 * remainder < unit ∨ (2 * remainder = unit ∧ quotient % 2 = 0) then quotient * unit
    else (quotient + 1) * unit

namespace Numeral

/-- The significand of a numeral and the power of ten that goes with it. -/
def scaled (n : Numeral) : Nat × Int :=
  let (whole, wholeLeft) := absorb 0 n.whole
  let (significand, fractionLeft) := absorb whole n.fraction
  (significand, n.exponent + wholeLeft.length - (n.fraction.length - fractionLeft.length : Nat))

/-- Whether a significand times a power of ten is a finite double. -/
def fitsDouble (significand : Nat) (exponent : Int) : Bool :=
  significand = 0 || exponent < 0 ||
    (exponent ≤ 308 &&
      roundTo53 significand * roundTo53 (Nat.pow 10 exponent.toNat) <
        Nat.pow 2 1024 - Nat.pow 2 970)

def inRange (n : Numeral) : Bool :=
  fitsDouble n.scaled.1 n.scaled.2

end Numeral

end Json
end VocabTypes
