import VocabTypes.Identifier

/-!
# Namespaces

## Short names for identifiers

A context lists namespaces, each a URL with the label that stands for it.  An
identifier whose IRI continues one of these URLs is written by its label and the
rest of the IRI; any other identifier is written as its IRI.  The context is one of
the options that are left to the user of the generator.
-/

namespace VocabTypes

/-- A URL and the label that stands for it; under the empty label names are written bare. -/
structure Namespace where
  label : String
  url : String
deriving DecidableEq

namespace Namespace

/-- The rest of an IRI after the namespace's URL, when there is a rest. -/
def term? (ns : Namespace) (href : String) : Option String :=
  if ns.url.toList.isPrefixOf href.toList then
    match href.toList.drop ns.url.toList.length with
    | [] => none
    | c :: rest => some (String.ofList (c :: rest))
  else
    none

/-- The rest of an IRI is the text that makes the IRI when put after the URL. -/
theorem term?_eq_some_iff {ns : Namespace} {href term : String} :
    ns.term? href = some term ↔ term ≠ "" ∧ ns.url ++ term = href := by
  constructor
  · intro h
    unfold term? at h
    split at h
    · next starts =>
        obtain ⟨rest, whole⟩ := List.isPrefixOf_iff_prefix.mp starts
        rw [← whole, List.drop_left] at h
        cases rest with
        | nil => cases h
        | cons c rest =>
            cases h
            refine ⟨by simp, ?_⟩
            apply String.toList_inj.mp
            simpa using whole
    · cases h
  · intro hsplit
    rcases hsplit with ⟨nonempty, rfl⟩
    have starts : ns.url.toList.isPrefixOf (ns.url ++ term).toList = true := by
      simp
    rw [term?, if_pos starts, String.toList_append, List.drop_left]
    cases letters : term.toList with
    | nil => exact absurd (String.toList_eq_nil_iff.mp letters) nonempty
    | cons c rest => simp [← letters]

def qualify (ns : Namespace) (term : String) : String :=
  if ns.label = "" then term else ns.label ++ ":" ++ term

end Namespace

/-- The namespaces known to an output, in the order in which they were declared. -/
structure Context where
  namespaces : List Namespace
deriving DecidableEq

namespace Context

/-- The context that writes terms of the standard vocabulary bare. -/
def standard : Context :=
  { namespaces := [{ label := "", url := "https://schema.org/" }] }

def insert (c : Context) (ns : Namespace) : Context :=
  { c with namespaces := c.namespaces ++ [ns] }

/-- A later match replaces an earlier one unless its URL is shorter. -/
def better (href : String) (best : Option (Namespace × String)) (ns : Namespace) :
    Option (Namespace × String) :=
  match ns.term? href with
  | none => best
  | some term =>
      match best with
      | none => some (ns, term)
      | some (held, heldTerm) =>
          if ns.url.length < held.url.length then some (held, heldTerm) else some (ns, term)

/-- The namespace with the longest URL that an IRI continues, the last of equals, and the rest. -/
def longestMatch? (c : Context) (href : String) : Option (Namespace × String) :=
  c.namespaces.foldl (better href) none

def shorten (c : Context) (id : Identifier) : String :=
  match c.longestMatch? id.href with
  | none => id.href
  | some (ns, term) => ns.qualify term

end Context

/-!
# Options
-/

/-- What a user may choose about the generated declarations. -/
structure Options where
  skipDeprecatedProperties : Bool
  context : Context
  idField : String
  typeField : String
deriving DecidableEq

namespace Options

/-- Deprecated properties are kept and reserved fields are named as in linked data. -/
def standard : Options :=
  { skipDeprecatedProperties := false
    context := Context.standard
    idField := "@id"
    typeField := "@type" }

end Options

end VocabTypes
