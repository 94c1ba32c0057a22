/-!
# Identifiers

## Names of vocabulary terms

Every term of a vocabulary is known by an IRI.  This module says which part of
an IRI is the local name that a reader sees, pairs the two as an `Identifier`,
and fixes the order in which identifiers are listed.
-/

namespace VocabTypes

/-!
# Local names

The local name of an IRI is what is left after its path and its fragment marker
have been cut away.
-/

/-- The part of a text after the last `sep`, or all of it when `sep` does not occur. -/
def afterLast (sep : Char) (text : List Char) : List Char :=
  (text.reverse.takeWhile (· != sep)).reverse

/-- The local name of an IRI: what follows its last slash and, within that, the last hash. -/
def localName (iri : String) : String :=
  String.ofList (afterLast '#' (afterLast '/' iri.toList))

/-!
# The identifier of a term

The local name is kept beside the IRI because a source may name a term otherwise
than its IRI does.
-/

/-- A term of a vocabulary: the name shown for it and the IRI that it is known by. -/
structure Identifier where
  name : String
  href : String
deriving DecidableEq

namespace Identifier

/-- The identifier that an IRI gives by itself, named by its local name. -/
def ofUrl (url : String) : Identifier :=
  { name := localName url, href := url }

instance : ToString Identifier :=
  ⟨href⟩

/-- Identifiers are ordered by name, and by IRI where the names agree. -/
instance : Ord Identifier :=
  ⟨compareLex (compareOn name) (compareOn href)⟩

/-- Sorts items by their identifiers; items that share one keep their order. -/
def sortOn (key : α → Identifier) (items : List α) : List α :=
  items.mergeSort fun a b => (compare (key a) (key b)).isLE

theorem sortOn_perm (key : α → Identifier) (items : List α) :
    (sortOn key items).Perm items :=
  List.mergeSort_perm items _

end Identifier

end VocabTypes
