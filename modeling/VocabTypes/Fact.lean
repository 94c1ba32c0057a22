import VocabTypes.Identifier

/-!
# Facts

## Statements about a vocabulary term

A source describes each term by facts, a predicate with an object.  Three
predicates have a meaning for the class model, each with one kind of object; a
fact of any other form says nothing to it.
-/

namespace VocabTypes

/-!
# Predicates with a meaning
-/

namespace Vocabulary

def comment : String :=
  "http://www.w3.org/2000/01/rdf-schema#comment"

def subclassOf : String :=
  "http://www.w3.org/2000/01/rdf-schema#subClassOf"

def supersededBy : String :=
  "https://schema.org/supersededBy"

/-- The namespace of the standard data types. -/
def standard : String :=
  "https://schema.org/"

end Vocabulary

/-!
# Facts and what they state
-/

/-- What a fact says about its subject: another term, or a piece of text. -/
inductive Object where
  | iri (target : Identifier)
  | literal (text : String)
deriving DecidableEq

/-- One fact about a term, which stands outside the fact. -/
structure Fact where
  predicate : String
  object : Object
deriving DecidableEq

/-- The meaning of a fact that the class model understands. -/
inductive Statement where
  | comment (text : String)
  | subclassOf (parent : Identifier)
  | supersededBy (target : Identifier)
deriving DecidableEq

namespace Statement

/-- The fact by which a source makes a statement. -/
def toFact : Statement → Fact
  | comment text => ⟨Vocabulary.comment, .literal text⟩
  | subclassOf parent => ⟨Vocabulary.subclassOf, .iri parent⟩
  | supersededBy target => ⟨Vocabulary.supersededBy, .iri target⟩

end Statement

namespace Fact

/-- What a fact states; nothing when its predicate is unknown or its object is of the other kind. -/
def statement? (fact : Fact) : Option Statement :=
  match fact.object with
  | .literal text =>
      if fact.predicate = Vocabulary.comment then some (.comment text) else none
  | .iri target =>
      if fact.predicate = Vocabulary.subclassOf then some (.subclassOf target)
      else if fact.predicate = Vocabulary.supersededBy then some (.supersededBy target)
      else none

/-- A fact is understood as a statement exactly when it is the fact that makes the statement. -/
theorem statement?_eq_some_iff {fact : Fact} {statement : Statement} :
    fact.statement? = some statement ↔ fact = statement.toFact := by
  have different : Vocabulary.subclassOf ≠ Vocabulary.supersededBy := by decide
  obtain ⟨predicate, object⟩ := fact
  cases object <;> cases statement <;> grind [statement?, Statement.toFact]

end Fact

end VocabTypes
