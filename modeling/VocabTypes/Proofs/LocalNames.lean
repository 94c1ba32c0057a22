import Mathlib.Data.List.DropRight
import Mathlib.Data.List.TakeWhile
import VocabTypes.Identifier

/-!
# Local names

## What two cuts leave of an IRI

An IRI is cut after its last slash, and what is left is cut after its last hash.  The two
cuts are one: read from the end, the local name goes on until the first separator of either
kind.  In which order the separators stand, and how many there are, makes no difference.
-/

namespace VocabTypes

/-- The characters after which a local name begins. -/
def isSeparator (c : Char) : Bool :=
  c == '/' || c == '#'

/-- A text in which no local name begins. -/
def LacksSeparators (text : String) : Prop :=
  '/' ∉ text.toList ∧ '#' ∉ text.toList

instance (text : String) : Decidable (LacksSeparators text) :=
  inferInstanceAs (Decidable ('/' ∉ text.toList ∧ '#' ∉ text.toList))

theorem lacksSeparators_iff {text : String} :
    LacksSeparators text ↔ ∀ c ∈ text.toList, isSeparator c = false := by
  simp only [LacksSeparators, isSeparator, Bool.or_eq_false_iff, beq_eq_false_iff_ne, ne_eq]
  constructor
  · intro hfree c hc
    exact ⟨fun hslash => hfree.left (hslash ▸ hc), fun hhash => hfree.right (hhash ▸ hc)⟩
  · intro hfree
    exact ⟨fun hslash => (hfree '/' hslash).left rfl, fun hhash => (hfree '#' hhash).right rfl⟩

/-!
# Reading from the end
-/

section

variable {α : Type} {p : α → Bool}

theorem rtakeWhile_rtakeWhile (p q : α → Bool) (items : List α) :
    (items.rtakeWhile q).rtakeWhile p = items.rtakeWhile fun a => p a && q a := by
  simp only [List.rtakeWhile, List.reverse_reverse, List.takeWhile_takeWhile,
    Bool.decide_and, Bool.decide_eq_true]

/-- What passes the test at the end is kept, and reading goes on before it. -/
theorem rtakeWhile_append {front rest : List α} (h : ∀ a ∈ rest, p a = true) :
    (front ++ rest).rtakeWhile p = front.rtakeWhile p ++ rest := by
  have hreversed : ∀ a ∈ rest.reverse, p a = true := by
    intro a ha
    exact h a (List.mem_reverse.mp ha)
  rw [List.rtakeWhile, List.reverse_append, List.takeWhile_append_of_pos hreversed,
    List.reverse_append, List.reverse_reverse, List.rtakeWhile]

/-- What is not read is nothing, or ends in what stopped the reading. -/
theorem rdropWhile_eq_nil_or_concat (p : α → Bool) (items : List α) :
    items.rdropWhile p = [] ∨
      ∃ before last, items.rdropWhile p = before ++ [last] ∧ p last = false := by
  by_cases hnil : items.rdropWhile p = []
  · exact Or.inl hnil
  · right
    refine ⟨(items.rdropWhile p).dropLast, (items.rdropWhile p).getLast hnil, ?_, ?_⟩
    · exact (List.dropLast_append_getLast hnil).symm
    · exact Bool.eq_false_iff.mpr (List.rdropWhile_last_not p items hnil)

end

theorem toList_localName (iri : String) :
    (localName iri).toList = iri.toList.rtakeWhile fun c => !isSeparator c := by
  have hcuts : afterLast '#' (afterLast '/' iri.toList) =
      (iri.toList.rtakeWhile (· != '/')).rtakeWhile (· != '#') := rfl
  rw [localName, String.toList_ofList, hcuts, rtakeWhile_rtakeWhile]
  congr 1
  funext c
  rw [isSeparator, Bool.not_or, Bool.and_comm]
  rfl

/-!
# The local name and what stands before it
-/

theorem lacksSeparators_localName (iri : String) : LacksSeparators (localName iri) := by
  rw [lacksSeparators_iff]
  intro c hc
  rw [toList_localName] at hc
  simpa using List.mem_rtakeWhile_imp hc

theorem exists_eq_append_localName (iri : String) :
    ∃ front, iri = front ++ localName iri ∧
      (front = "" ∨ ∃ before, front = before ++ "/" ∨ front = before ++ "#") := by
  have hsplit : (iri.toList.rdropWhile fun c => !isSeparator c) ++ (localName iri).toList =
      iri.toList := by
    rw [toList_localName, List.rdropWhile_append_rtakeWhile]
  refine ⟨String.ofList (iri.toList.rdropWhile fun c => !isSeparator c), ?_, ?_⟩
  · rw [← String.toList_inj, String.toList_append, String.toList_ofList, hsplit]
  · rcases rdropWhile_eq_nil_or_concat (fun c => !isSeparator c) iri.toList with
      hnil | ⟨before, last, hconcat, hlast⟩
    · left
      rw [hnil, String.ofList_nil]
    · right
      refine ⟨String.ofList before, ?_⟩
      have hseparator : last = '/' ∨ last = '#' := by
        simpa [isSeparator, Decidable.imp_iff_not_or] using hlast
      rw [hconcat, String.ofList_append]
      rcases hseparator with rfl | rfl
      · exact Or.inl rfl
      · exact Or.inr rfl

/-- What ends an IRI without a separator is kept, and the cut is made before it. -/
theorem localName_append {front rest : String} (h : LacksSeparators rest) :
    localName (front ++ rest) = localName front ++ rest := by
  have hrest : ∀ c ∈ rest.toList, (!isSeparator c) = true := by
    intro c hc
    rw [lacksSeparators_iff.mp h c hc]
    rfl
  rw [← String.toList_inj, toList_localName, String.toList_append, rtakeWhile_append hrest,
    String.toList_append, toList_localName]

theorem localName_eq_empty {before sep : String} (hsep : sep ∈ ["/", "#"]) :
    localName (before ++ sep) = "" := by
  have hlast : ∃ c, sep.toList = [c] ∧ isSeparator c = true := by
    rcases List.mem_pair.mp hsep with rfl | rfl
    · exact ⟨'/', by decide⟩
    · exact ⟨'#', by decide⟩
  rcases hlast with ⟨c, hc, hseparator⟩
  rw [← String.toList_inj, toList_localName, String.toList_append, hc,
    List.rtakeWhile_concat_neg _ _ _ (by simp [hseparator])]
  rfl

/-- An IRI that goes on after a separator without another one is named by what follows. -/
theorem localName_after {before sep term : String} (hsep : sep ∈ ["/", "#"])
    (hterm : LacksSeparators term) : localName (before ++ sep ++ term) = term := by
  rw [localName_append hterm, localName_eq_empty hsep, String.empty_append]

theorem localName_eq_self {text : String} (h : LacksSeparators text) : localName text = text := by
  rw [← String.toList_inj, toList_localName, List.rtakeWhile_eq_self_iff]
  intro c hc
  rw [lacksSeparators_iff.mp h c hc]
  rfl

/--
The local name of an IRI is the longest text at its end without a separator.  Before it
stands nothing, or a text that ends in a separator, and every end of the IRI without a
separator is an end of the local name.  So a local name is its own local name, and an
identifier made of an IRI is named by what follows a separator when no further one follows.
-/
theorem local_name_is_longest_end (iri : String) :
    (∃ front, iri = front ++ localName iri ∧
      (front = "" ∨ ∃ before, front = before ++ "/" ∨ front = before ++ "#")) ∧
    LacksSeparators (localName iri) ∧
    (∀ front rest, iri = front ++ rest → LacksSeparators rest →
      ∃ more, localName iri = more ++ rest) ∧
    localName (localName iri) = localName iri ∧
    ∀ before sep term, sep ∈ ["/", "#"] → LacksSeparators term →
      Identifier.ofUrl (before ++ sep ++ term) = ⟨term, before ++ sep ++ term⟩ := by
  refine ⟨exists_eq_append_localName iri, lacksSeparators_localName iri, ?_,
    localName_eq_self (lacksSeparators_localName iri), ?_⟩
  · intro front rest hiri hrest
    exact ⟨localName front, by rw [hiri, localName_append hrest]⟩
  · intro before sep term hsep hterm
    rw [Identifier.ofUrl, localName_after hsep hterm]

theorem local_names_of_mixed_separators :
    LacksSeparators "c" ∧ "a#b/#/c" = "a#b/#/" ++ "c" ∧
      (∃ more, localName "a#b/#/c" = more ++ "c") ∧
      Identifier.ofUrl ("a/b#/" ++ "#" ++ "c") = ⟨"c", "a/b#/#c"⟩ ∧
      Identifier.ofUrl ("a#b/" ++ "/" ++ "") = ⟨"", "a#b//"⟩ := by
  rcases local_name_is_longest_end "a#b/#/c" with ⟨_, _, hlongest, _, hnamed⟩
  refine ⟨by decide, by decide, hlongest "a#b/#/" "c" (by decide) (by decide), ?_, ?_⟩
  · exact hnamed "a/b#/" "#" "c" (by decide) (by decide)
  · exact hnamed "a#b/" "/" "" (by decide) (by decide)

end VocabTypes
