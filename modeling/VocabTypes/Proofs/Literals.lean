import Mathlib.Tactic.SplitIfs
import VocabTypes.Proofs.Decoding

/-!
# Literals

## Reading a literal out of the text around it

A literal goes from a quote to the next quote that is not escaped, which is one with an
even number of backslashes directly before it.  What stands between them is decoded.  A
quoted text is read back in this way whatever it holds and whatever follows it.
-/

namespace VocabTypes
namespace Text
namespace Quoted

/-!
# Escaped characters
-/

/-- Whether a text escapes the character after it: it ends in an odd number of backslashes. -/
def escapesNext (text : List Char) : Bool :=
  (text.reverse.takeWhile (· == '\\')).length % 2 == 1

/-- A backslash escapes the next character unless it is escaped itself. -/
theorem escapesNext_concat (text : List Char) (c : Char) :
    escapesNext (text ++ [c]) = (c == '\\' && !escapesNext text) := by
  unfold escapesNext
  rw [List.reverse_append, List.reverse_singleton, List.singleton_append]
  by_cases hslash : c = '\\'
  · rw [List.takeWhile_cons_of_pos (by simpa using hslash), List.length_cons, hslash]
    grind
  · rw [List.takeWhile_cons_of_neg (by simpa using hslash)]
    simp [hslash]

theorem escapesNext_concat_of_ne {c : Char} (h : c ≠ '\\') (text : List Char) :
    escapesNext (text ++ [c]) = false := by
  rw [escapesNext_concat, beq_eq_false_iff_ne.mpr h, Bool.false_and]

/-!
# Reading
-/

/-- Splits a text at its first quote that is not escaped; `passed` is what stands before it. -/
def untilQuote (passed : List Char) : List Char → Option (List Char × List Char)
  | [] => none
  | c :: rest =>
      if c = '"' ∧ escapesNext passed = false then some (passed, rest)
      else untilQuote (passed ++ [c]) rest

/-- Reads a literal at the head of a text: what it stands for, and what follows it. -/
def readLiteral? : List Char → Option (String × List Char)
  | '"' :: rest => do
      let (body, after) ← untilQuote [] rest
      let text ← decode body
      return (String.ofList text, after)
  | _ => none

/-- Every quote in a text is escaped, when `passed` stands before the text. -/
def QuotesEscaped (passed text : List Char) : Prop :=
  ∀ front back, text = front ++ '"' :: back → escapesNext (passed ++ front) = true

theorem QuotesEscaped.append {passed text more : List Char} (h : QuotesEscaped passed text)
    (hmore : QuotesEscaped (passed ++ text) more) : QuotesEscaped passed (text ++ more) := by
  intro front back hsplit
  rcases List.append_eq_append_iff.mp hsplit with ⟨rest, rfl, hrest⟩ | ⟨rest, rfl, hrest⟩
  · rw [← List.append_assoc]
    exact hmore rest back hrest
  · cases rest with
    | nil =>
        rw [← List.append_assoc] at hmore
        simpa using hmore [] back hrest.symm
    | cons c rest =>
        rw [← (List.cons.inj hrest).1] at h
        exact h front rest rfl

theorem quotesEscaped_of_not_mem {text : List Char} (h : '"' ∉ text) (passed : List Char) :
    QuotesEscaped passed text := by
  rintro front back rfl
  exact absurd (List.mem_append_right front List.mem_cons_self) h

/-- A text in which every quote is escaped is passed over up to the quote after it. -/
theorem untilQuote_of_quotesEscaped {passed text : List Char} (h : QuotesEscaped passed text)
    (hend : escapesNext (passed ++ text) = false) (rest : List Char) :
    untilQuote passed (text ++ '"' :: rest) = some (passed ++ text, rest) := by
  induction text generalizing passed with
  | nil =>
      rw [List.append_nil] at hend ⊢
      rw [List.nil_append, untilQuote, if_pos ⟨rfl, hend⟩]
  | cons c text ih =>
      have hpassed : ¬ (c = '"' ∧ escapesNext passed = false) := by
        rintro ⟨rfl, hplain⟩
        have hescaped := h [] text rfl
        rw [List.append_nil, hplain] at hescaped
        cases hescaped
      have htext : QuotesEscaped (passed ++ [c]) text := by
        rintro front back rfl
        rw [List.append_assoc]
        exact h (c :: front) back rfl
      have hassoc : passed ++ [c] ++ text = passed ++ c :: text := by
        rw [List.append_assoc, List.singleton_append]
      rw [← hassoc] at hend ⊢
      rw [List.cons_append, untilQuote, if_neg hpassed]
      exact ih htext hend

/-!
# Written characters
-/

section

variable {passed : List Char}

/-- After a character has been written, nothing is left escaped. -/
theorem escapesNext_append_escape (h : escapesNext passed = false) (c : Char) :
    escapesNext (passed ++ escape c) = false := by
  have hwritten := written_escape c
  generalize escape c = written at hwritten ⊢
  cases hwritten with
  | letter letter hletter hcode =>
      have hslash : escapesNext (passed ++ ['\\']) = true := by
        rw [escapesNext_concat, h]
        rfl
      rw [← List.singleton_append, ← List.append_assoc, escapesNext_concat, hslash]
      simp
  | code =>
      have hsplit : passed ++ '\\' :: 'u' :: '{' :: (Nat.toDigits 16 c.toNat ++ ['}']) =
          (passed ++ '\\' :: 'u' :: '{' :: Nat.toDigits 16 c.toNat) ++ ['}'] := by
        simp
      rw [hsplit]
      exact escapesNext_concat_of_ne (by decide) _
  | plain hquote hslash hcontrol => exact escapesNext_concat_of_ne hslash passed

theorem quotesEscaped_escape (h : escapesNext passed = false) (c : Char) :
    QuotesEscaped passed (escape c) := by
  have hwritten := written_escape c
  generalize escape c = written at hwritten ⊢
  cases hwritten with
  | letter letter hletter hcode =>
      intro front back hsplit
      cases front with
      | nil => cases hsplit
      | cons first front =>
          rcases List.cons.inj hsplit with ⟨rfl, hrest⟩
          cases front with
          | nil =>
              rw [escapesNext_concat, h]
              rfl
          | cons second front =>
              have hlength := congrArg List.length hrest
              simp at hlength
  | code =>
      apply quotesEscaped_of_not_mem
      intro hmem
      have hdigit : '"' ∈ Nat.toDigits 16 c.toNat := by
        simpa using hmem
      exact (ne_of_mem_toDigits hdigit).1 rfl
  | plain hquote hslash hcontrol =>
      apply quotesEscaped_of_not_mem
      rw [List.mem_singleton]
      exact hquote.symm

theorem escapesNext_append_encode (h : escapesNext passed = false) (text : List Char) :
    escapesNext (passed ++ encode text) = false := by
  unfold encode
  induction text generalizing passed with
  | nil =>
      rw [List.flatMap_nil, List.append_nil]
      exact h
  | cons c text ih =>
      rw [List.flatMap_cons, ← List.append_assoc]
      exact ih (escapesNext_append_escape h c)

theorem quotesEscaped_encode (h : escapesNext passed = false) (text : List Char) :
    QuotesEscaped passed (encode text) := by
  unfold encode
  induction text generalizing passed with
  | nil => exact quotesEscaped_of_not_mem List.not_mem_nil passed
  | cons c text ih =>
      rw [List.flatMap_cons]
      exact (quotesEscaped_escape h c).append (ih (escapesNext_append_escape h c))

end

/-!
# Control characters
-/

theorem isControl_eq_false_of_escapedLetter? {letter c : Char}
    (h : Json.escapedLetter? letter = some c) : isControl letter = false := by
  unfold Json.escapedLetter? at h
  split_ifs at h with hletter hletter hletter hletter hletter hletter hletter hletter
  all_goals
    rw [hletter]
    decide

theorem isControl_eq_false_of_mem_toDigits {n : Nat} {c : Char} (h : c ∈ Nat.toDigits 16 n) :
    isControl c = false := by
  rcases exists_digitChar_of_mem_toDigits h with ⟨digit, hdigit, rfl⟩
  interval_cases digit <;> decide

/-- A character is written without control characters. -/
theorem isControl_eq_false_of_mem_escape {c d : Char} (h : d ∈ escape c) : isControl d = false := by
  have hwritten := written_escape c
  generalize escape c = written at hwritten h
  cases hwritten with
  | letter letter hletter hcode =>
      rcases List.mem_cons.mp h with rfl | hd
      · decide
      · rw [List.mem_singleton.mp hd]
        exact isControl_eq_false_of_escapedLetter? hletter
  | code =>
      simp only [List.mem_cons, List.mem_append, List.not_mem_nil, or_false] at h
      rcases h with rfl | rfl | rfl | hdigit | rfl
      · decide
      · decide
      · decide
      · exact isControl_eq_false_of_mem_toDigits hdigit
      · decide
  | plain hquote hslash hcontrol =>
      rw [List.mem_singleton.mp h]
      exact hcontrol

theorem isControl_eq_false_of_mem_encode {text : List Char} {c : Char} (h : c ∈ encode text) :
    isControl c = false := by
  rcases List.mem_flatMap.mp h with ⟨d, _, hd⟩
  exact isControl_eq_false_of_mem_escape hd

/--
Quoting is undone by reading a literal.  A quoted text has a quote at either end, and what
stands between them has no control characters and no quote that is not escaped, and it
decodes to the text.  So a reader at the opening quote stops at the closing one, and it
finds the text and what follows the literal, whatever that is.
-/
theorem literal_read_back (text : String) :
    (∃ body, (quote text).toList = '"' :: (body ++ ['"']) ∧
        (∀ c ∈ body, isControl c = false) ∧
        (∀ front back, body = front ++ '"' :: back → escapesNext front = true) ∧
        decode body = some text.toList) ∧
      ∀ rest, readLiteral? ((quote text).toList ++ rest) = some (text, rest) := by
  have hquote : (quote text).toList = '"' :: (encode text.toList ++ ['"']) := by
    rw [quote, String.toList_ofList]
  have hescaped := @quotesEscaped_encode [] rfl text.toList
  refine ⟨⟨encode text.toList, hquote, fun c hc => isControl_eq_false_of_mem_encode hc,
    hescaped, decode_encode text.toList⟩, ?_⟩
  intro rest
  have hend := @escapesNext_append_encode [] rfl text.toList
  have hsplit := untilQuote_of_quotesEscaped hescaped hend rest
  rw [List.nil_append] at hsplit
  rw [hquote, List.cons_append, List.append_assoc, List.singleton_append, readLiteral?, hsplit]
  simp [decode_encode]

/-- Backslashes at the end, and digits and a brace after a control character. -/
example : quote "\x01f\x7d\\\\" = "\"\\u\x7b1\x7df\x7d\\\\\\\\\"" := by
  decide

end Quoted
end Text
end VocabTypes
