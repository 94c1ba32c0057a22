import VocabTypes.Proofs.Grammar

/-!
# Completeness

## Reading what the grammar allows

Where a token or a value stands in a text, its reader takes off just that and leaves
what comes after it.  Whole values are passed over, however deep they are.
-/

namespace VocabTypes
namespace Json

/-!
# Outcomes
-/

/-- A value is read and a rest is left. -/
def Gives {bound : Nat} {α : Type} (outcome : Outcome bound α) (value : α) (rest : List Char) :
    Prop :=
  ∃ shorter, outcome = .ok ⟨value, rest, shorter⟩

namespace Gives

variable {bound larger : Nat} {α β : Type} {outcome : Outcome bound α} {value : α}
  {rest : List Char} (h : Gives outcome value rest)

include h

theorem map (f : α → β) : Gives (outcome.map f) (f value) rest := by
  rcases h with ⟨shorter, rfl⟩
  exact ⟨shorter, rfl⟩

theorem widen (hbound : bound ≤ larger) : Gives (outcome.widen hbound) value rest := by
  rcases h with ⟨shorter, rfl⟩
  exact ⟨_, rfl⟩

theorem andThen {next : α → Reader β} {other : β} {after : List Char}
    (hnext : Gives (next value rest) other after) : Gives (outcome.andThen next) other after := by
  rcases h with ⟨shorter, rfl⟩
  rcases hnext with ⟨_, heq⟩
  rw [Outcome.andThen, heq]
  exact ⟨_, rfl⟩

end Gives

theorem Gives.of_map {bound : Nat} {α β : Type} {outcome : Outcome bound α} {f : α → β}
    {image : β} {rest : List Char} (h : Gives (outcome.map f) image rest) :
    ∃ value, Gives outcome value rest := by
  rcases h with ⟨_, heq⟩
  cases outcome with
  | error fault => cases heq
  | ok r =>
      cases heq
      exact ⟨r.value, r.shorter, rfl⟩

theorem gives_trimmed {α : Type} {read : Reader α} {s between rest : List Char} {value : α}
    (hs : skipBlanks s = between) (h : Gives (read between) value rest) :
    Gives (read.trimmed s) value rest := by
  subst hs
  exact h.widen _

namespace Grammar

/-!
# Blanks and marks
-/

theorem Blanks.skipBlanks_eq {s rest : List Char} (h : Blanks s rest) :
    skipBlanks s = skipBlanks rest := by
  induction h with
  | none => rfl
  | blank hc _ ih =>
      rw [← ih, skipBlanks, List.dropWhile_cons_of_pos hc]
      rfl

theorem skipBlanks_cons {c : Char} (hc : isBlank c = false) (rest : List Char) :
    skipBlanks (c :: rest) = c :: rest :=
  List.dropWhile_cons_of_neg (Bool.not_eq_true _ ▸ hc)

theorem Blanks.skipBlanks_cons {c : Char} {s rest : List Char} (h : Blanks s (c :: rest))
    (hc : isBlank c = false) : skipBlanks s = c :: rest := by
  rw [h.skipBlanks_eq, Grammar.skipBlanks_cons hc]

theorem Blanks.mark {c : Char} {s rest : List Char} (h : Blanks s (c :: rest))
    (hc : isBlank c = false) : Gives (mark c s) () rest := by
  apply gives_trimmed (h.skipBlanks_cons hc)
  dsimp only
  rw [if_pos rfl]
  exact ⟨_, rfl⟩

theorem gives_word (letters rest : List Char) : Gives (word letters (letters ++ rest)) () rest := by
  induction letters with
  | nil => exact ⟨_, rfl⟩
  | cons letter letters ih =>
      rw [List.cons_append, word, if_pos rfl]
      exact ih.widen _

/-!
# Strings
-/

theorem gives_codeUnit {a b c d : Char} {n : Nat} (h : hexNumber? a b c d = some n)
    (rest : List Char) : Gives (codeUnit (a :: b :: c :: d :: rest)) n rest := by
  have hbytes : fewerThanFourBytes (a :: b :: c :: d :: rest) = false := by
    have ha := Char.utf8Size_pos a
    have hb := Char.utf8Size_pos b
    have hc := Char.utf8Size_pos c
    have hd := Char.utf8Size_pos d
    simp [fewerThanFourBytes]
    omega
  rw [codeUnit, hbytes]
  simp only [Bool.false_eq_true, if_false, h]
  exact ⟨_, rfl⟩

section

variable {unit : Reader Char} {s between rest : List Char} {c : Char}

theorem escaped_letter {e : Char} (h : escapedLetter? e = some c) :
    Gives (escaped unit (e :: rest)) c rest := by
  have hunit : e ≠ 'u' := by
    rintro rfl
    cases h
  rw [escaped, if_neg hunit, h]
  exact ⟨_, rfl⟩

theorem escaped_unit (h : Gives (unit s) c rest) : Gives (escaped unit ('u' :: s)) c rest := by
  rw [escaped, if_pos rfl]
  exact h.widen _

variable {cs : List Char} (hlater : Gives (stringWith unit between) cs rest)

include hlater

theorem stringWith_plain (hquote : c ≠ '"') (hescape : c ≠ '\\') (hcontrol : 0x20 ≤ c.toNat) :
    Gives (stringWith unit (c :: between)) (c :: cs) rest := by
  rw [stringWith, if_neg hquote, if_neg hescape, if_neg (Nat.not_lt_of_le hcontrol)]
  exact (hlater.map _).widen _

theorem stringWith_escaped (h : Gives (escaped unit s) c between) :
    Gives (stringWith unit ('\\' :: s)) (c :: cs) rest := by
  rcases h with ⟨shorter, heq⟩
  rw [stringWith, if_neg (by decide), if_pos rfl, heq]
  exact (hlater.map _).widen _

end

theorem stringWith_close (unit : Reader Char) (rest : List Char) :
    Gives (stringWith unit ('"' :: rest)) [] rest := by
  rw [stringWith, if_pos rfl]
  exact ⟨_, rfl⟩

theorem isTrailing_of_isLeading {n : Nat} (h : isLeading n = true) : isTrailing n = false := by
  simp [isLeading, isTrailing] at h ⊢
  omega

/-- A character of a string is read as what it stands for. -/
theorem Letter.stringWith {s between rest cs : List Char} {c : Char} (h : Letter s c between)
    (hlater : Gives (stringWith escapedUnit between) cs rest) :
    Gives (stringWith escapedUnit s) (c :: cs) rest := by
  cases h with
  | plain hquote hescape hcontrol => exact stringWith_plain hlater hquote hescape hcontrol
  | escaped hletter => exact stringWith_escaped hlater (escaped_letter hletter)
  | unit hnumber hleading htrailing =>
      apply stringWith_escaped hlater (escaped_unit _)
      rcases gives_codeUnit hnumber between with ⟨shorter, heq⟩
      rw [escapedUnit, heq]
      simp only [htrailing, hleading, Bool.false_eq_true, if_false]
      exact ⟨shorter, rfl⟩
  | pair hleadingIs hleading htrailingIs htrailing =>
      apply stringWith_escaped hlater (escaped_unit _)
      rcases gives_codeUnit hleadingIs _ with ⟨shorter, heq⟩
      rcases gives_codeUnit htrailingIs between with ⟨_, hpartner⟩
      have hother := isTrailing_of_isLeading hleading
      rw [escapedUnit, heq]
      simp only [hother, hleading, Bool.false_eq_true, if_false, if_true]
      apply Gives.widen
      rw [partner, hpartner]
      simp only [htrailing, if_true]
      exact ⟨_, rfl⟩

theorem Letters.stringWith {s cs rest : List Char} (h : Letters s cs rest) :
    Gives (stringWith escapedUnit s) cs rest := by
  induction h with
  | close => exact stringWith_close _ _
  | letter hletter _ ih => exact hletter.stringWith ih

theorem Letters.stringBody {s cs rest : List Char} (h : Letters s cs rest) :
    Gives (stringBody s) (String.ofList cs) rest :=
  h.stringWith.map _

theorem escaped_skipped {a b c d : Char} {n : Nat} (h : hexNumber? a b c d = some n)
    (rest : List Char) :
    Gives (escaped (fun s => (codeUnit s).map fun _ => ' ') ('u' :: a :: b :: c :: d :: rest)) ' '
      rest := by
  apply escaped_unit
  exact (gives_codeUnit h rest).map _

/-- A character of a string is passed over; of a pair, both code units are. -/
theorem Letter.skipped {s between rest : List Char} {c : Char} (h : Letter s c between)
    (hlater : Gives (skipString between) () rest) : Gives (skipString s) () rest := by
  rcases hlater.of_map with ⟨cs, hlater⟩
  cases h with
  | plain hquote hescape hcontrol =>
      exact (stringWith_plain hlater hquote hescape hcontrol).map _
  | escaped hletter => exact (stringWith_escaped hlater (escaped_letter hletter)).map _
  | unit hnumber _ _ =>
      exact (stringWith_escaped hlater (escaped_skipped hnumber between)).map _
  | pair hleading _ htrailing _ =>
      have hpartner := stringWith_escaped hlater (escaped_skipped htrailing between)
      exact (stringWith_escaped hpartner (escaped_skipped hleading _)).map _

theorem Letters.skipped {s cs rest : List Char} (h : Letters s cs rest) :
    Gives (skipString s) () rest := by
  induction h with
  | close => exact (stringWith_close _ _).map _
  | letter hletter _ ih => exact hletter.skipped ih

/-!
# Numbers

A number is read to its end when the text goes on with something else.
-/

/-- No number goes on here. -/
def Ends (rest : List Char) : Prop :=
  ∀ c ∈ rest.head?, c.isDigit = false ∧ c ≠ '.' ∧ c ≠ 'e' ∧ c ≠ 'E'

section

variable {ds s between rest : List Char}

theorem ne_of_isDigit {c d : Char} (hc : c.isDigit = true)
    (hd : d.isDigit = false) : c ≠ d := by
  rintro rfl
  rw [hc] at hd
  cases hd

theorem exists_cons_of_allDigits (hsome : ds ≠ []) (hall : AllDigits ds) :
    ∃ d later, ds = d :: later ∧ d.isDigit = true := by
  cases ds with
  | nil => exact absurd rfl hsome
  | cons d later => exact ⟨d, later, rfl, hall d (List.mem_cons_self ..)⟩

theorem afterDigits_append (hall : AllDigits ds)
    (hrest : ∀ c ∈ rest.head?, c.isDigit = false) : afterDigits (ds ++ rest) = rest := by
  rw [afterDigits, List.dropWhile_append_of_pos hall]
  cases rest with
  | nil => rfl
  | cons c rest =>
      have hc := hrest c rfl
      exact List.dropWhile_cons_of_neg (Bool.not_eq_true _ ▸ hc)

theorem someDigits_skipped (atEnd : Fault) (hsome : ds ≠ []) (hall : AllDigits ds)
    (hrest : ∀ c ∈ rest.head?, c.isDigit = false) :
    ∃ value, Gives (someDigits atEnd (ds ++ rest)) value rest := by
  cases ds with
  | nil => exact absurd rfl hsome
  | cons d ds =>
      rw [AllDigits, List.forall_mem_cons] at hall
      have hafter := afterDigits_append hall.right hrest
      rw [List.cons_append, someDigits, if_pos hall.left]
      refine ⟨digits (d :: (ds ++ rest)), ?_, ?_⟩
      · rw [List.length_cons, List.length_append]
        omega
      · simp only [hafter]

theorem Whole.skipped (atEnd : Fault) (h : Whole ds)
    (hrest : ∀ c ∈ rest.head?, c.isDigit = false) :
    ∃ value, Gives (wholePart atEnd (ds ++ rest)) value rest := by
  cases h with
  | zero =>
      cases rest with
      | nil => exact someDigits_skipped atEnd (by simp) (by simp [AllDigits]) hrest
      | cons c rest =>
          have hc := hrest c rfl
          refine ⟨[0], ?_, ?_⟩
          · simp
          · simp [wholePart, hc]
  | digits hd hzero hall =>
      have hsome := someDigits_skipped atEnd (List.cons_ne_nil _ _)
        (List.forall_mem_cons.mpr ⟨hd, hall⟩) hrest
      rw [List.cons_append] at hsome ⊢
      rw [wholePart]
      · exact hsome
      · intro c later heq
        exact hzero (List.cons.inj heq).left

theorem Fraction.skipped (atEnd : Fault) (h : Fraction s ds rest)
    (hrest : ∀ c ∈ rest.head?, c.isDigit = false ∧ c ≠ '.') :
    ∃ value, Gives (fractionPart atEnd s) value rest := by
  cases h with
  | none =>
      refine ⟨[], length_lt_succ _, ?_⟩
      rw [fractionPart]
      intro later heq
      subst heq
      exact (hrest '.' rfl).right rfl
  | digits hsome hall =>
      rcases someDigits_skipped atEnd hsome hall fun c hc => (hrest c hc).left with ⟨value, hgives⟩
      exact ⟨value, hgives.widen _⟩

theorem Signed.skipped (atEnd : Fault) {power : Int} (h : Signed s power rest)
    (hrest : ∀ c ∈ rest.head?, c.isDigit = false) :
    ∃ value, Gives (signedDigits atEnd s) value rest := by
  cases h with
  | plain hsome hall =>
      rcases someDigits_skipped atEnd hsome hall hrest with ⟨value, hgives⟩
      rcases exists_cons_of_allDigits hsome hall with ⟨d, ds, rfl, hd⟩
      rw [List.cons_append] at hgives ⊢
      rw [signedDigits]
      · exact ⟨_, hgives.map _⟩
      · intro later heq
        exact ne_of_isDigit hd rfl (List.cons.inj heq).left
      · intro later heq
        exact ne_of_isDigit hd rfl (List.cons.inj heq).left
  | plus hsome hall =>
      rcases someDigits_skipped atEnd hsome hall hrest with ⟨value, hgives⟩
      exact ⟨_, (hgives.map _).widen _⟩
  | minus hsome hall =>
      rcases someDigits_skipped atEnd hsome hall hrest with ⟨value, hgives⟩
      exact ⟨_, (hgives.map _).widen _⟩

theorem Exponent.skipped (atEnd : Fault) {power : Int} (h : Exponent s power rest)
    (hrest : Ends rest) : ∃ value, Gives (exponentPart atEnd s) value rest := by
  cases h with
  | none =>
      cases s with
      | nil => exact ⟨0, by simp, rfl⟩
      | cons c s =>
          rcases hrest c rfl with ⟨_, _, hlower, hupper⟩
          refine ⟨0, by simp, ?_⟩
          simp [exponentPart, hlower, hupper]
  | signed he hsigned =>
      rcases hsigned.skipped atEnd fun c hc => (hrest c hc).left with ⟨value, hgives⟩
      rw [exponentPart, if_pos he]
      exact ⟨value, hgives.widen _⟩

theorem Whole.starts (h : Whole ds) : ∃ d later, ds = d :: later ∧ d.isDigit = true := by
  cases h with
  | zero => exact ⟨'0', [], rfl, rfl⟩
  | digits hd _ _ => exact ⟨_, _, rfl, hd⟩

/-- Neither digits nor a point stand where an exponent may stand. -/
theorem Exponent.starts {power : Int} (h : Exponent s power rest) (hrest : Ends rest) :
    ∀ c ∈ s.head?, c.isDigit = false ∧ c ≠ '.' := by
  cases h with
  | none => exact fun c hc => ⟨(hrest c hc).left, (hrest c hc).right.left⟩
  | signed he _ =>
      intro c hc
      cases hc
      rcases he with rfl | rfl <;> decide

theorem Fraction.starts (h : Fraction s ds rest)
    (hrest : ∀ c ∈ rest.head?, c.isDigit = false ∧ c ≠ '.') :
    ∀ c ∈ s.head?, c.isDigit = false := by
  cases h with
  | none => exact fun c hc => (hrest c hc).left
  | digits _ _ =>
      intro c hc
      cases hc
      rfl

theorem unsigned_skipped (atEnd : Fault) {fraction : List Char} {power : Int} (hwhole : Whole ds)
    (hfraction : Fraction s fraction between) (hexponent : Exponent between power rest)
    (hrest : Ends rest) : ∃ value, Gives (unsignedNumeral atEnd (ds ++ s)) value rest := by
  have hbetween := hexponent.starts hrest
  rcases hwhole.skipped atEnd (hfraction.starts hbetween) with ⟨whole, _, hwholeIs⟩
  rcases hfraction.skipped atEnd hbetween with ⟨fractionDigits, _, hfractionIs⟩
  rcases hexponent.skipped atEnd hrest with ⟨exponent, _, hexponentIs⟩
  rw [unsignedNumeral]
  simp only [hwholeIs, hfractionIs, hexponentIs]
  exact ⟨_, _, rfl⟩

theorem Number.skipped (atEnd : Fault) {mantissa power : Int}
    (h : Number s mantissa power rest) (hrest : Ends rest) :
    ∃ value, Gives (numeral atEnd s) value rest := by
  cases h with
  | positive hwhole hfraction hexponent =>
      have hunsigned := unsigned_skipped atEnd hwhole hfraction hexponent hrest
      rcases hwhole.starts with ⟨d, later, rfl, hd⟩
      rw [List.cons_append] at hunsigned ⊢
      rw [numeral]
      · exact hunsigned
      · intro after heq
        exact ne_of_isDigit hd rfl (List.cons.inj heq).left
  | negative hwhole hfraction hexponent =>
      rcases unsigned_skipped atEnd hwhole hfraction hexponent hrest with ⟨value, hgives⟩
      exact ⟨value, hgives.widen _⟩

theorem Number.starts {mantissa power : Int} (h : Number s mantissa power rest) :
    ∃ c later, s = c :: later ∧ (c = '-' ∨ c.isDigit = true) := by
  cases h with
  | positive hwhole _ _ =>
      rcases hwhole.starts with ⟨d, later, rfl, hd⟩
      exact ⟨d, _, rfl, Or.inr hd⟩
  | negative _ _ _ => exact ⟨'-', _, rfl, Or.inl rfl⟩

/-- A number does not start with other marks. -/
theorem ne_of_numeric {c d : Char} (hc : c = '-' ∨ c.isDigit = true)
    (hd : d ≠ '-' ∧ d.isDigit = false) : c ≠ d := by
  rcases hc with rfl | hc
  · exact hd.left.symm
  · exact ne_of_isDigit hc hd.right

theorem isBlank_numeric {c : Char} (hc : c = '-' ∨ c.isDigit = true) : isBlank c = false := by
  have hother : ∀ d, d ≠ '-' ∧ d.isDigit = false → c ≠ d := fun _ hd => ne_of_numeric hc hd
  simp [isBlank, hother]

end

/-!
# Passing over values

What is passed over is the value with what is left of the open brackets, so passing on
from the front of a value comes to passing on from behind it.
-/

section

variable {s rest after : List Char} {bracket : Bracket} {brackets : List Bracket}

theorem skip_value_eq {c : Char} (h : skipBlanks s = c :: rest) :
    skip .value brackets s =
      if c = '[' then skip .opened (.list :: brackets) rest
      else if c = '\x7b' then skip .opened (.object :: brackets) rest
      else
        match skipScalar (c :: rest) with
        | .error fault => .error fault
        | .ok r => skip .closed brackets r.rest := by
  conv => lhs; rw [skip]
  split
  case h_1 hnone => rw [h] at hnone; cases hnone
  case h_2 d later hfound =>
    rw [h] at hfound
    cases hfound
    cases skipScalar (c :: rest) <;> rfl

theorem skip_opened_eq {c : Char} (h : skipBlanks s = c :: rest) :
    skip .opened (bracket :: brackets) s =
      if c = bracket.close then skip .closed brackets rest
      else
        match skipLabel bracket (c :: rest) with
        | .error fault => .error fault
        | .ok r => skip .value (bracket :: brackets) r.rest := by
  conv => lhs; rw [skip]
  split
  case h_1 hnone => rw [h] at hnone; cases hnone
  case h_2 d later hfound =>
    rw [h] at hfound
    cases hfound
    cases skipLabel bracket (c :: rest) <;> rfl

theorem skip_closed_eq {c : Char} (h : skipBlanks s = c :: rest) :
    skip .closed (bracket :: brackets) s =
      if c = bracket.close then skip .closed brackets rest
      else if c = ',' then
        match skipLabel bracket rest with
        | .error fault => .error fault
        | .ok r => skip .value (bracket :: brackets) r.rest
      else .error .malformed := by
  conv => lhs; rw [skip]
  split
  case h_1 hnone => rw [h] at hnone; cases hnone
  case h_2 d later hfound =>
    rw [h] at hfound
    cases hfound
    cases skipLabel bracket rest <;> rfl

theorem skip_scalar {c : Char} (h : skipBlanks s = c :: rest)
    (hscalar : Gives (skipScalar (c :: rest)) () after)
    (hother : c ≠ '[' ∧ c ≠ '\x7b') :
    skip .value brackets s = skip .closed brackets after := by
  rcases hscalar with ⟨_, hscalar⟩
  rw [skip_value_eq h, if_neg hother.left, if_neg hother.right, hscalar]

theorem skip_opened_label {c : Char} (h : skipBlanks s = c :: rest) (hclose : c ≠ bracket.close)
    (hlabel : Gives (skipLabel bracket (c :: rest)) () after) :
    skip .opened (bracket :: brackets) s = skip .value (bracket :: brackets) after := by
  rcases hlabel with ⟨_, hlabel⟩
  rw [skip_opened_eq h, if_neg hclose, hlabel]

theorem skip_closed_label (h : skipBlanks s = ',' :: rest)
    (hlabel : Gives (skipLabel bracket rest) () after) :
    skip .closed (bracket :: brackets) s = skip .value (bracket :: brackets) after := by
  have hclose : ',' ≠ bracket.close := by
    cases bracket with
    | list => decide
    | object => decide
  rcases hlabel with ⟨_, hlabel⟩
  rw [skip_closed_eq h, if_neg hclose, if_pos rfl, hlabel]

end

/-- The place inside a bracket before its first value or after a value. -/
def placeIn (first : Bool) : Place :=
  if first then .opened else .closed

theorem skip_close {first : Bool} {bracket : Bracket} {brackets : List Bracket}
    {s rest : List Char} (h : Blanks s (bracket.close :: rest)) :
    skip (placeIn first) (bracket :: brackets) s = skip .closed brackets rest := by
  have hblank : isBlank bracket.close = false := by
    cases bracket with
    | list => decide
    | object => decide
  have hs := h.skipBlanks_cons hblank
  cases first with
  | true => exact (skip_opened_eq hs).trans (if_pos rfl)
  | false => exact (skip_closed_eq hs).trans (if_pos rfl)

/-- A value starts with a character that is no blank and closes no list. -/
theorem Value.starts {s rest : List Char} {json : Json} (h : Value s json rest) :
    ∃ c later, s = c :: later ∧ isBlank c = false ∧ c ≠ ']' := by
  cases h with
  | null => exact ⟨_, _, rfl, by decide⟩
  | isTrue => exact ⟨_, _, rfl, by decide⟩
  | isFalse => exact ⟨_, _, rfl, by decide⟩
  | number hnumber =>
      rcases hnumber.starts with ⟨c, later, rfl, hc⟩
      exact ⟨c, later, rfl, isBlank_numeric hc, ne_of_numeric hc (by decide)⟩
  | string _ => exact ⟨_, _, rfl, by decide⟩
  | list _ => exact ⟨_, _, rfl, by decide⟩
  | object _ => exact ⟨_, _, rfl, by decide⟩

theorem Value.eq_null {later rest : List Char} {json : Json} (h : Value ('n' :: later) json rest) :
    json = .null := by
  cases h with
  | null => rfl
  | number hnumber =>
      rcases hnumber.starts with ⟨c, _, heq, hc⟩
      exact absurd (List.cons.inj heq).left.symm (ne_of_numeric hc (by decide))

theorem ends_cons {c : Char} (rest : List Char)
    (h : c.isDigit = false ∧ c ≠ '.' ∧ c ≠ 'e' ∧ c ≠ 'E') : Ends (c :: rest) := by
  intro d hd
  cases hd
  exact h

theorem Blanks.ends {s rest : List Char} (h : Blanks s rest) (hrest : Ends rest) : Ends s := by
  induction h with
  | none => exact hrest
  | blank hblank _ _ =>
      rcases (by simpa [isBlank] using hblank) with ((rfl | rfl) | rfl) | rfl
      all_goals exact ends_cons _ (by decide)

/-- What stands behind an item or a member ends a number. -/
theorem Items.ends {s rest : List Char} {items : List Json} (h : Items false s items rest) :
    Ends s := by
  cases h with
  | close hblanks =>
      exact hblanks.ends (ends_cons _ (by decide))
  | item hseparator _ _ =>
      cases hseparator with
      | comma hblanks _ =>
          exact hblanks.ends (ends_cons _ (by decide))

theorem Members.ends {s rest : List Char} {members : List (String × Json)}
    (h : Members false s members rest) : Ends s := by
  cases h with
  | close hblanks =>
      exact hblanks.ends (ends_cons _ (by decide))
  | member hseparator _ _ _ _ _ =>
      cases hseparator with
      | comma hblanks _ =>
          exact hblanks.ends (ends_cons _ (by decide))

theorem gives_skipScalar_number {c : Char} {s rest : List Char} {mantissa power : Int}
    (h : Number (c :: s) mantissa power rest) (hc : c = '-' ∨ c.isDigit = true)
    (hrest : Ends rest) : Gives (skipScalar (c :: s)) () rest := by
  rcases h.skipped .malformed hrest with ⟨value, hnumeral⟩
  rw [skipScalar, if_neg (ne_of_numeric hc (by decide)), if_neg (ne_of_numeric hc (by decide)),
    if_neg (ne_of_numeric hc (by decide)), if_neg (ne_of_numeric hc (by decide)), if_pos hc]
  exact hnumeral.map _

theorem gives_skipLabel_list (s : List Char) : Gives (skipLabel .list s) () s :=
  ⟨_, rfl⟩

theorem gives_skipLabel_object {s here cs colon after : List Char} (h : Blanks s ('"' :: here))
    (hkey : Letters here cs colon) (hcolon : Blanks colon (':' :: after)) :
    Gives (skipLabel .object s) () after := by
  have hlabel : Gives (skipKey ('"' :: here)) () after := by
    rw [skipKey, if_pos rfl]
    exact (hkey.skipped.andThen (hcolon.mark rfl)).widen _
  exact (gives_trimmed (h.skipBlanks_cons rfl) hlabel).widen _

/-- Passing on to an item comes to passing over the item itself. -/
theorem skip_item {first : Bool} {s here between : List Char} {item : Json}
    (hseparator : Separator first s here) (hvalue : Value here item between)
    (brackets : List Bracket) :
    ∃ before, Blanks before here ∧
      skip (placeIn first) (.list :: brackets) s = skip .value (.list :: brackets) before := by
  cases hseparator with
  | first hblanks =>
      rcases hvalue.starts with ⟨c, later, rfl, hblank, hclose⟩
      exact ⟨_, .none, skip_opened_label (hblanks.skipBlanks_cons hblank) hclose
        (gives_skipLabel_list _)⟩
  | comma hcomma hblanks =>
      exact ⟨_, hblanks, skip_closed_label (hcomma.skipBlanks_cons rfl)
        (gives_skipLabel_list _)⟩

theorem skip_member {first : Bool} {s here cs colon after : List Char}
    (hseparator : Separator first s ('"' :: here)) (hkey : Letters here cs colon)
    (hcolon : Blanks colon (':' :: after)) (brackets : List Bracket) :
    skip (placeIn first) (.object :: brackets) s = skip .value (.object :: brackets) after := by
  cases hseparator with
  | first hblanks =>
      exact skip_opened_label (hblanks.skipBlanks_cons rfl) (by decide)
        (gives_skipLabel_object .none hkey hcolon)
  | comma hcomma hblanks =>
      exact skip_closed_label (hcomma.skipBlanks_cons rfl)
        (gives_skipLabel_object hblanks hkey hcolon)

mutual

/-- A value is passed over, with blanks before it and whatever brackets are open around it. -/
theorem Value.skipped : ∀ {s rest : List Char} {json : Json}, Value s json rest → Ends rest →
    ∀ {before : List Char}, Blanks before s → ∀ brackets : List Bracket,
      skip .value brackets before = skip .closed brackets rest
  | _, rest, _, .null, _, _, hbefore, _ =>
      skip_scalar (hbefore.skipBlanks_cons rfl) ((gives_word ['n', 'u', 'l', 'l'] rest).widen _)
        (by decide)
  | _, rest, _, .isTrue, _, _, hbefore, _ =>
      skip_scalar (hbefore.skipBlanks_cons rfl) ((gives_word ['t', 'r', 'u', 'e'] rest).widen _)
        (by decide)
  | _, rest, _, .isFalse, _, _, hbefore, _ =>
      skip_scalar (hbefore.skipBlanks_cons rfl)
        ((gives_word ['f', 'a', 'l', 's', 'e'] rest).widen _) (by decide)
  | _, _, _, .number hnumber, hrest, _, hbefore, _ => by
      rcases hnumber.starts with ⟨c, later, rfl, hc⟩
      exact skip_scalar (hbefore.skipBlanks_cons (isBlank_numeric hc))
        (gives_skipScalar_number hnumber hc hrest)
        ⟨ne_of_numeric hc (by decide), ne_of_numeric hc (by decide)⟩
  | _, _, _, .string hletters, _, _, hbefore, _ =>
      skip_scalar (hbefore.skipBlanks_cons rfl) (hletters.skipped.widen _) (by decide)
  | _, _, _, .list hitems, _, _, hbefore, brackets =>
      (skip_value_eq (hbefore.skipBlanks_cons rfl)).trans (hitems.skipped brackets)
  | _, _, _, .object hmembers, _, _, hbefore, brackets =>
      (skip_value_eq (hbefore.skipBlanks_cons rfl)).trans (hmembers.skipped brackets)

theorem Items.skipped : ∀ {first : Bool} {s rest : List Char} {items : List Json},
    Items first s items rest → ∀ brackets : List Bracket,
      skip (placeIn first) (.list :: brackets) s = skip .closed brackets rest
  | _, _, _, _, .close hblanks, _ => skip_close hblanks
  | _, _, _, _, .item hseparator hvalue hlater, brackets => by
      rcases skip_item hseparator hvalue brackets with ⟨before, hbefore, hitem⟩
      rw [hitem, hvalue.skipped hlater.ends hbefore]
      exact hlater.skipped brackets

theorem Members.skipped : ∀ {first : Bool} {s rest : List Char} {members : List (String × Json)},
    Members first s members rest → ∀ brackets : List Bracket,
      skip (placeIn first) (.object :: brackets) s = skip .closed brackets rest
  | _, _, _, _, .close hblanks, _ => skip_close hblanks
  | _, _, _, _, .member hseparator hkey hcolon hblanks hvalue hlater, brackets => by
      rw [skip_member hseparator hkey hcolon, hvalue.skipped hlater.ends hblanks]
      exact hlater.skipped brackets

end

theorem Value.skipValue {before s rest : List Char} {json : Json} (h : Value s json rest)
    (hrest : Ends rest) (hbefore : Blanks before s) : Gives (skipValue before) () rest := by
  have hskip := h.skipped hrest hbefore []
  rw [skip.eq_def .closed] at hskip
  unfold Json.skipValue
  split
  case h_1 fault hfault =>
    rw [hskip] at hfault
    cases hfault
  case h_2 after hafter =>
    rw [hskip] at hafter
    cases hafter
    exact ⟨_, rfl⟩

end Grammar
end Json
end VocabTypes
