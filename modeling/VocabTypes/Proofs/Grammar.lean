import Mathlib.Tactic.SplitIfs
import VocabTypes.Json.Basic
import VocabTypes.Json.Skip

/-!
# Grammar

## JSON texts and the values that they stand for

The relations say what stands at the front of a text and what comes after it.  Blanks
may stand around every token, the characters of a string may be escaped, and a number
may have a fraction and an exponent.  What is rendered for a value is one of the texts
that stand for it.
-/

namespace VocabTypes
namespace Json
namespace Grammar

/-!
# Blanks
-/

inductive Blanks : List Char → List Char → Prop where
  | none {rest : List Char} : Blanks rest rest
  | blank {c : Char} {s rest : List Char} :
      isBlank c = true → Blanks s rest → Blanks (c :: s) rest

/-!
# Strings
-/

/-- A character of a string, as it is or escaped. -/
inductive Letter : List Char → Char → List Char → Prop where
  | plain {c : Char} {rest : List Char} :
      c ≠ '"' → c ≠ '\\' → 0x20 ≤ c.toNat → Letter (c :: rest) c rest
  | escaped {e c : Char} {rest : List Char} :
      escapedLetter? e = some c → Letter ('\\' :: e :: rest) c rest
  | unit {a b c d : Char} {n : Nat} {rest : List Char} :
      hexNumber? a b c d = some n → isLeading n = false → isTrailing n = false →
        Letter ('\\' :: 'u' :: a :: b :: c :: d :: rest) (Char.ofNat n) rest
  | pair {a b c d e f g h : Char} {leading trailing : Nat} {rest : List Char} :
      hexNumber? a b c d = some leading → isLeading leading = true →
        hexNumber? e f g h = some trailing → isTrailing trailing = true →
          Letter ('\\' :: 'u' :: a :: b :: c :: d :: '\\' :: 'u' :: e :: f :: g :: h :: rest)
            (joinPair leading trailing) rest

/-- The characters of a string after its opening quote, and the quote that closes it. -/
inductive Letters : List Char → List Char → List Char → Prop where
  | close {rest : List Char} : Letters ('"' :: rest) [] rest
  | letter {c : Char} {s between cs rest : List Char} :
      Letter s c between → Letters between cs rest → Letters s (c :: cs) rest

/-!
# Numbers
-/

def AllDigits (ds : List Char) : Prop :=
  ∀ d ∈ ds, d.isDigit = true

/-- The number that some decimal digits stand for. -/
def decimal (ds : List Char) : Int :=
  Nat.ofDigitChars 10 ds 0

/-- Digits before the point, without a superfluous zero. -/
inductive Whole : List Char → Prop where
  | zero : Whole ['0']
  | digits {d : Char} {ds : List Char} :
      d.isDigit = true → d ≠ '0' → AllDigits ds → Whole (d :: ds)

inductive Fraction : List Char → List Char → List Char → Prop where
  | none {rest : List Char} : Fraction rest [] rest
  | digits {ds rest : List Char} :
      ds ≠ [] → AllDigits ds → Fraction ('.' :: (ds ++ rest)) ds rest

inductive Signed : List Char → Int → List Char → Prop where
  | plain {ds rest : List Char} : ds ≠ [] → AllDigits ds → Signed (ds ++ rest) (decimal ds) rest
  | plus {ds rest : List Char} :
      ds ≠ [] → AllDigits ds → Signed ('+' :: (ds ++ rest)) (decimal ds) rest
  | minus {ds rest : List Char} :
      ds ≠ [] → AllDigits ds → Signed ('-' :: (ds ++ rest)) (-decimal ds) rest

inductive Exponent : List Char → Int → List Char → Prop where
  | none {rest : List Char} : Exponent rest 0 rest
  | signed {e : Char} {s rest : List Char} {power : Int} :
      e = 'e' ∨ e = 'E' → Signed s power rest → Exponent (e :: s) power rest

/-- A number by its mantissa, which takes in the fraction, and its power of ten. -/
inductive Number : List Char → Int → Int → List Char → Prop where
  | positive {whole s fraction between rest : List Char} {power : Int} :
      Whole whole → Fraction s fraction between → Exponent between power rest →
        Number (whole ++ s) (decimal (whole ++ fraction)) (power - fraction.length) rest
  | negative {whole s fraction between rest : List Char} {power : Int} :
      Whole whole → Fraction s fraction between → Exponent between power rest →
        Number ('-' :: (whole ++ s)) (-decimal (whole ++ fraction)) (power - fraction.length)
          rest

/-!
# Values
-/

/-- What stands before an item or a member: a comma, unless it is the first. -/
inductive Separator : Bool → List Char → List Char → Prop where
  | first {s rest : List Char} : Blanks s rest → Separator true s rest
  | comma {s between rest : List Char} :
      Blanks s (',' :: between) → Blanks between rest → Separator false s rest

mutual

inductive Value : List Char → Json → List Char → Prop where
  | null {rest : List Char} : Value ('n' :: 'u' :: 'l' :: 'l' :: rest) .null rest
  | isTrue {rest : List Char} : Value ('t' :: 'r' :: 'u' :: 'e' :: rest) (.bool true) rest
  | isFalse {rest : List Char} :
      Value ('f' :: 'a' :: 'l' :: 's' :: 'e' :: rest) (.bool false) rest
  | number {s rest : List Char} {mantissa exponent : Int} :
      Number s mantissa exponent rest → Value s (.num mantissa exponent) rest
  | string {s cs rest : List Char} :
      Letters s cs rest → Value ('"' :: s) (.str (String.ofList cs)) rest
  | list {s rest : List Char} {items : List Json} :
      Items true s items rest → Value ('[' :: s) (.arr items) rest
  | object {s rest : List Char} {members : List (String × Json)} :
      Members true s members rest → Value ('\x7b' :: s) (.obj members) rest

/-- The items of an array, after its opening bracket or an item, and the closing bracket. -/
inductive Items : Bool → List Char → List Json → List Char → Prop where
  | close {first : Bool} {s rest : List Char} : Blanks s (']' :: rest) → Items first s [] rest
  | item {first : Bool} {s here between rest : List Char} {item : Json} {items : List Json} :
      Separator first s here → Value here item between → Items false between items rest →
        Items first s (item :: items) rest

/-- The members of an object, after its opening brace or a member, and the closing brace. -/
inductive Members : Bool → List Char → List (String × Json) → List Char → Prop where
  | close {first : Bool} {s rest : List Char} :
      Blanks s ('\x7d' :: rest) → Members first s [] rest
  | member {first : Bool} {s here cs colon after value between rest : List Char} {json : Json}
      {members : List (String × Json)} :
      Separator first s ('"' :: here) → Letters here cs colon → Blanks colon (':' :: after) →
        Blanks after value → Value value json between → Members false between members rest →
          Members first s ((String.ofList cs, json) :: members) rest

end

/-- A whole text that stands for a value; blanks may surround it. -/
def Document (text : String) (json : Json) : Prop :=
  ∃ s rest, Blanks text.toList s ∧ Value s json rest ∧ Blanks rest []

/-!
# Rendered values

What is rendered for a value stands for it, whatever comes after it.
-/

theorem letter_unit (c tens : Char) {t n : Nat} (ht : hexValue? tens = some t) (hn : n < 16)
    (hc : t * 16 + n = c.toNat) (hsmall : c.toNat < 0x20) (rest : List Char) :
    Letter ('\\' :: 'u' :: '0' :: '0' :: tens :: Nat.digitChar n :: rest) c rest := by
  have hzero : hexValue? '0' = some 0 := by decide
  have hnumber : hexNumber? '0' '0' tens (Nat.digitChar n) = some c.toNat := by
    simp [hexNumber?, hzero, ht, hexValue?_digitChar n hn, hc]
  have hunit : Letter _ _ rest := .unit hnumber (by simp [isLeading]; omega)
    (by simp [isTrailing]; omega)
  rw [Char.ofNat_toNat] at hunit
  exact hunit

theorem letter_escape (c : Char) (rest : List Char) : Letter (escape c ++ rest) c rest := by
  unfold escape
  split_ifs with hquote hbackslash hback hfeed hline hreturn htab hlow hhigh
  · subst hquote
    exact .escaped rfl
  · subst hbackslash
    exact .escaped rfl
  · subst hback
    exact .escaped rfl
  · subst hfeed
    exact .escaped rfl
  · subst hline
    exact .escaped rfl
  · subst hreturn
    exact .escaped rfl
  · subst htab
    exact .escaped rfl
  · exact letter_unit c '0' (t := 0) (by decide) hlow (by omega) (by omega) rest
  · exact letter_unit c '1' (t := 1) (by decide) (by omega) (by omega) hhigh rest
  · exact .plain hquote hbackslash (by omega)

theorem letters_flatMap_escape (cs rest : List Char) :
    Letters (cs.flatMap escape ++ '"' :: rest) cs rest := by
  induction cs with
  | nil => exact .close
  | cons c cs ih =>
      rw [List.flatMap_cons, List.append_assoc]
      exact .letter (letter_escape c _) ih

theorem head_toDigits {n : Nat} (hn : 0 < n) :
    ∃ d ds, Nat.toDigits 10 n = d :: ds ∧ d ≠ '0' := by
  induction n using Nat.strongRecOn with
  | ind n ih =>
      by_cases hsmall : n < 10
      · refine ⟨Nat.digitChar n, [], Nat.toDigits_of_lt_base hsmall, ?_⟩
        rw [ne_eq, Nat.digitChar_eq_zero]
        exact Nat.ne_of_gt hn
      · rw [Nat.toDigits_of_base_le (by decide) (Nat.le_of_not_lt hsmall)]
        rcases ih (n / 10) (by omega) (by omega) with ⟨d, ds, hdigits, hd⟩
        exact ⟨d, ds ++ [Nat.digitChar (n % 10)], by rw [hdigits, List.cons_append], hd⟩

theorem allDigits_toDigits (n : Nat) : AllDigits (Nat.toDigits 10 n) :=
  fun _ hd => Nat.isDigit_of_mem_toDigits (by decide) (by decide) hd

theorem whole_toDigits (n : Nat) : Whole (Nat.toDigits 10 n) := by
  cases n with
  | zero => exact .zero
  | succ n =>
      rcases head_toDigits (Nat.succ_pos n) with ⟨d, ds, hdigits, hd⟩
      have hall := allDigits_toDigits (n + 1)
      rw [hdigits] at hall ⊢
      rw [AllDigits, List.forall_mem_cons] at hall
      exact .digits hall.left hd hall.right

theorem decimal_toDigits (n : Nat) : decimal (Nat.toDigits 10 n) = n := by
  rw [decimal, Nat.ofDigitChars_ten_toDigits]

theorem toList_toString_ofNat (n : Nat) :
    (toString (Int.ofNat n)).toList = Nat.toDigits 10 n := by
  have hrepr : toString (Int.ofNat n) = n.repr := rfl
  rw [hrepr, Nat.repr_eq_ofList_toDigits, String.toList_ofList]

theorem toList_toString_negSucc (n : Nat) :
    (toString (Int.negSucc n)).toList = '-' :: Nat.toDigits 10 (n + 1) := by
  have hrepr : toString (Int.negSucc n) = "-" ++ (n + 1).repr := rfl
  rw [hrepr, String.toList_append, Nat.repr_eq_ofList_toDigits]
  simp

theorem signed_toString (power : Int) (rest : List Char) :
    Signed ((toString power).toList ++ rest) power rest := by
  cases power with
  | ofNat n =>
      have hsigned : Signed _ _ rest := .plain Nat.toDigits_ne_nil (allDigits_toDigits n)
      rw [decimal_toDigits] at hsigned
      rw [toList_toString_ofNat]
      exact hsigned
  | negSucc n =>
      have hsigned : Signed _ _ rest := .minus Nat.toDigits_ne_nil (allDigits_toDigits (n + 1))
      rw [decimal_toDigits] at hsigned
      rw [toList_toString_negSucc]
      exact hsigned

theorem number_toString (mantissa : Int) {power : Int} {s rest : List Char}
    (h : Exponent s power rest) :
    Number ((toString mantissa).toList ++ s) mantissa power rest := by
  cases mantissa with
  | ofNat n =>
      have hnumber := Number.positive (whole_toDigits n) .none h
      rw [List.append_nil, decimal_toDigits, List.length_nil, Int.natCast_zero, Int.sub_zero]
        at hnumber
      rw [toList_toString_ofNat]
      exact hnumber
  | negSucc n =>
      have hnumber := Number.negative (whole_toDigits (n + 1)) .none h
      rw [List.append_nil, decimal_toDigits, List.length_nil, Int.natCast_zero, Int.sub_zero]
        at hnumber
      rw [toList_toString_negSucc]
      exact hnumber

theorem number_render (mantissa power : Int) (rest : List Char) :
    Number ((num mantissa power).render.toList ++ rest) mantissa power rest := by
  rw [render]
  split_ifs with hpower
  · rw [hpower]
    exact number_toString mantissa .none
  · have hexponent : Exponent ('e' :: ((toString power).toList ++ rest)) power rest :=
      .signed (Or.inl rfl) (signed_toString power rest)
    have hnumber := number_toString mantissa hexponent
    simpa [String.toList_append] using hnumber

/-- The rendered items after the first one, each after a comma. -/
theorem items_flatMap {items : List Json} (rest : List Char)
    (h : ∀ item ∈ items, ∀ rest, Value (item.render.toList ++ rest) item rest) :
    Items false ((items.flatMap fun item => ',' :: item.render.toList) ++ ']' :: rest) items
      rest := by
  induction items with
  | nil => exact .close .none
  | cons item items ih =>
      rw [List.forall_mem_cons] at h
      rw [List.flatMap_cons, List.cons_append, List.cons_append, List.append_assoc]
      exact .item (.comma .none .none) (h.left _) (ih h.right)

theorem members_flatMap {members : List (String × Json)} (rest : List Char)
    (h : ∀ member ∈ members, ∀ rest, Value (member.2.render.toList ++ rest) member.2 rest) :
    Members false
      ((members.flatMap fun member =>
        ',' :: (Json.quote member.1 ++ ":" ++ member.2.render).toList) ++ '\x7d' :: rest)
      members rest := by
  induction members with
  | nil => exact .close .none
  | cons member members ih =>
      rw [List.forall_mem_cons] at h
      have hkey := letters_flatMap_escape member.1.toList
      have hmember := Members.member (.comma .none .none) (hkey _) .none .none (h.left _)
        (ih h.right)
      simpa [Json.quote, String.toList_append] using hmember

theorem renderItems_eq_map (items : List Json) : renderItems items = items.map render := by
  induction items with
  | nil => rfl
  | cons item items ih => rw [renderItems, ih, List.map_cons]

theorem renderMembers_eq_map (members : List (String × Json)) :
    renderMembers members =
      members.map fun member => Json.quote member.1 ++ ":" ++ member.2.render := by
  induction members with
  | nil => rfl
  | cons member members ih => rw [renderMembers, ih, List.map_cons]

theorem toList_intercalate_comma (text : String) (texts : List String) :
    (",".intercalate (text :: texts)).toList =
      text.toList ++ texts.flatMap fun text => ',' :: text.toList := by
  rw [String.toList_intercalate]
  induction texts generalizing text with
  | nil => simp
  | cons next texts ih =>
      have hnext := ih next
      rw [List.map_cons] at hnext
      rw [List.map_cons, List.map_cons, List.intercalate_cons_cons, hnext, List.flatMap_cons]
      simp

theorem value_render (json : Json) (rest : List Char) :
    Value (json.render.toList ++ rest) json rest := by
  induction json generalizing rest with
  | null => exact .null
  | bool value =>
      cases value with
      | true => exact .isTrue
      | false => exact .isFalse
  | num mantissa power => exact .number (number_render mantissa power rest)
  | str text =>
      have hletters := Value.string (letters_flatMap_escape text.toList rest)
      simpa [render, Json.quote] using hletters
  | arr items ih =>
      have hitems : Items true ((",".intercalate (renderItems items)).toList ++ ']' :: rest) items
          rest := by
        rw [renderItems_eq_map]
        cases items with
        | nil => exact .close .none
        | cons item items =>
            rw [List.forall_mem_cons] at ih
            have hlater := items_flatMap rest ih.right
            have hall := Items.item (.first .none) (ih.left _) hlater
            rw [List.map_cons, toList_intercalate_comma, List.append_assoc, List.flatMap_map]
            exact hall
      simpa [render, String.toList_append] using Value.list hitems
  | obj members ih =>
      have hmembers : Members true
          ((",".intercalate (renderMembers members)).toList ++ '\x7d' :: rest) members rest := by
        rw [renderMembers_eq_map]
        cases members with
        | nil => exact .close .none
        | cons member members =>
            rw [List.forall_mem_cons] at ih
            have hlater := members_flatMap rest ih.right
            have hall := Members.member (.first .none)
              (letters_flatMap_escape member.1.toList _) .none .none (ih.left _) hlater
            rw [List.map_cons, toList_intercalate_comma, List.append_assoc, List.flatMap_map]
            simpa [Json.quote, String.toList_append] using hall
      simpa [render, String.toList_append] using Value.object hmembers

theorem document_render (json : Json) : Document json.render json := by
  refine ⟨_, [], .none, ?_, .none⟩
  have hvalue := value_render json []
  rw [List.append_nil] at hvalue
  exact hvalue

end Grammar
end Json
end VocabTypes
