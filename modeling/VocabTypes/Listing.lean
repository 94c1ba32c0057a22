import VocabTypes.Declaration.Source
import VocabTypes.Shape

/-!
# Listings

## The declarations of a whole registry

A class is declared by its enumeration, if it has values, its base type and its
public type; a builtin by one declaration.  A listing holds the declarations of
all entities in global order, with a report on them.
-/

namespace VocabTypes

/-!
# Declarations of one entity
-/

namespace EnumValue

def member (v : EnumValue) : EnumMember :=
  { name := v.id.name, value := v.id.href, comment := v.comment }

end EnumValue

/-- Documentation that is left out when it is empty. -/
def unlessEmpty (doc : String) : Option String :=
  if doc = "" then none else some doc

namespace Entity

def enumeration (e : Entity) : List Declaration :=
  match e.enumValuesInOrder with
  | [] => []
  | values => [.enumeration e.nameOfEnum none (values.map EnumValue.member)]

end Entity

namespace Registry

def declarationsOfClass (r : Registry) (o : Options) (e : Entity) : List Declaration :=
  e.enumeration ++
    [.typeAlias e.nameOfBase none (r.baseShape o e),
      .typeAlias e.name (r.documentation e) (r.publicShape o e)]

/-- The declarations of an entity, in the order in which they are printed. -/
def declarations (r : Registry) (o : Options) (e : Entity) : List Declaration :=
  match e.kind with
  | .rdfsClass => r.declarationsOfClass o e
  | .builtin typeName doc => [.typeAlias e.name (unlessEmpty doc) (.reference typeName)]
  | .booleanEnum trueUrl falseUrl doc =>
      [.enumeration e.name (unlessEmpty doc)
        [⟨"True", trueUrl, none⟩, ⟨"False", falseUrl, none⟩]]
  | .dataTypeUnion members doc =>
      [.typeAlias e.name (unlessEmpty doc)
        (.union ((r.resolve members).map fun member => .reference member.name))]

end Registry

/-!
# The whole registry
-/

/-- Counts of what was generated, and the diagnostics of the registry. -/
structure Report where
  entities : Nat
  enumerations : Nat
  aliases : Nat
  deprecated : Nat
  diagnostics : List Diagnostic
deriving DecidableEq

/-- All declarations in global order, with the report on them. -/
structure Listing where
  declarations : List Declaration
  report : Report

namespace Listing

def render (listing : Listing) : String :=
  Source.render listing.declarations

end Listing

namespace Registry

def declarationsInOrder (r : Registry) (o : Options) : List Declaration :=
  r.entitiesInOrder.flatMap (r.declarations o)

def listing (r : Registry) (o : Options) : Listing :=
  let declarations := r.declarationsInOrder o
  { declarations
    report :=
      { entities := r.entitiesInOrder.length
        enumerations := declarations.countP fun d => d.isEnumeration
        aliases := declarations.countP fun d => !d.isEnumeration
        deprecated := r.entitiesInOrder.countP fun e => e.deprecated
        diagnostics := r.diagnostics } }

end Registry

end VocabTypes
