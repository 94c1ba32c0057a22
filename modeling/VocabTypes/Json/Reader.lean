/-!
# Reading from the left

## Faults, readings and the marks between values

A reader takes something off the front of a text, or reports the first fault that
it meets.  Every reading carries the proof that it has used up part of the text,
which is what makes loops over readings end.
-/

namespace VocabTypes
namespace Json

/-!
# Faults
-/

/-- What is wrong with a text at the first place where something is wrong. -/
inductive Fault where
  /-- The text is no JSON at this place. -/
  | malformed
  /-- The text is JSON, but not what is expected here. -/
  | unfit
  /-- The text ends inside a value. -/
  | unfinished
deriving DecidableEq

/-!
# Readings
-/

/-- Something read from a text, with the rest of the text, which is shorter than `bound`. -/
structure Reading (bound : Nat) (α : Type) where
  value : α
  rest : List Char
  shorter : rest.length < bound

namespace Reading

def map (f : α → β) (r : Reading bound α) : Reading bound β :=
  ⟨f r.value, r.rest, r.shorter⟩

/-- A reading stays one under a larger bound. -/
def widen (r : Reading bound α) (h : bound ≤ larger) : Reading larger α :=
  ⟨r.value, r.rest, Nat.lt_of_lt_of_le r.shorter h⟩

end Reading

/-- The outcome of reading: a fault, or a reading. -/
abbrev Outcome (bound : Nat) (α : Type) :=
  Except Fault (Reading bound α)

namespace Outcome

def map (f : α → β) : Outcome bound α → Outcome bound β
  | .error fault => .error fault
  | .ok r => .ok (r.map f)

def widen (outcome : Outcome bound α) (h : bound ≤ larger) : Outcome larger α :=
  match outcome with
  | .error fault => .error fault
  | .ok r => .ok (r.widen h)

def andThen (outcome : Outcome bound α)
    (next : α → (s : List Char) → Outcome s.length β) : Outcome bound β :=
  match outcome with
  | .error fault => .error fault
  | .ok r => (next r.value r.rest).widen (Nat.le_of_lt r.shorter)

/-- The fault of an outcome, or else the one that counts where nothing should have been read. -/
def faultOr (otherwise : Fault) : Outcome bound α → Fault
  | .error fault => fault
  | .ok _ => otherwise

end Outcome

/-!
# What is left of a text

The bounds on the rest of a text after its first character, or after a word at its
front.
-/

theorem length_lt_succ (s : List Char) : s.length < s.length + 1 :=
  Nat.lt_succ_self s.length

theorem length_le_succ (s : List Char) : s.length ≤ s.length + 1 :=
  Nat.le_succ s.length

theorem length_after_four_le (c : Char) (rest : List Char) :
    (c :: rest).length + 1 - 4 ≤ (c :: rest).length := by
  omega

theorem length_after_five_le (c : Char) (rest : List Char) :
    (c :: rest).length + 1 - 5 ≤ (c :: rest).length := by
  omega

/-- Takes a value off the front of a text and uses up part of the text. -/
abbrev Reader (α : Type) :=
  (s : List Char) → Outcome s.length α

/-!
# White space and marks
-/

def isBlank (c : Char) : Bool :=
  c == ' ' || c == '\t' || c == '\n' || c == '\r'

/-- The text from the first character that is not blank. -/
def skipBlanks (s : List Char) : List Char :=
  s.dropWhile isBlank

theorem length_skipBlanks_le (s : List Char) : (skipBlanks s).length ≤ s.length :=
  (List.dropWhile_sublist isBlank).length_le

theorem length_lt_of_skipBlanks {s rest : List Char} {c : Char} (h : skipBlanks s = c :: rest) :
    rest.length < s.length + 1 := by
  have hle := length_skipBlanks_le s
  rw [h, List.length_cons] at hle
  exact Nat.lt_succ_of_lt hle

def Reader.trimmed (read : Reader α) : Reader α :=
  fun s => (read (skipBlanks s)).widen (length_skipBlanks_le s)

def mark (c : Char) : Reader Unit :=
  Reader.trimmed fun
    | [] => .error .unfinished
    | d :: rest => if d = c then .ok ⟨(), rest, length_lt_succ rest⟩ else .error .malformed

/-- Reads the rest of a word. -/
def word : (letters s : List Char) → Outcome (s.length + 1 - letters.length) Unit
  | [], s => .ok ⟨(), s, by simp⟩
  | _ :: _, [] => .error .unfinished
  | letter :: letters, c :: s =>
      if c = letter then (word letters s).widen (by simp) else .error .malformed

end Json
end VocabTypes
