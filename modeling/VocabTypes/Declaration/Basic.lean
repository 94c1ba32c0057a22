import VocabTypes.TypeExpr.Basic

/-!
# Declarations

## What is generated for an entity

A declaration names an enumeration of strings or gives a name to a type.
-/

namespace VocabTypes

/-- A member of an enumeration: its name and the string that it stands for. -/
structure EnumMember where
  name : String
  value : String
  comment : Option String
deriving DecidableEq

/-- An enumeration or a named type, with documentation that may be missing. -/
inductive Declaration where
  | enumeration (name : String) (comment : Option String) (members : List EnumMember)
  | typeAlias (name : String) (comment : Option String) (type : TypeExpr)

namespace Declaration

def name : Declaration → String
  | enumeration name .. => name
  | typeAlias name .. => name

def comment : Declaration → Option String
  | enumeration _ comment _ => comment
  | typeAlias _ comment _ => comment

def type? : Declaration → Option TypeExpr
  | enumeration .. => none
  | typeAlias _ _ type => some type

def members? : Declaration → Option (List EnumMember)
  | enumeration _ _ members => some members
  | typeAlias .. => none

def isEnumeration : Declaration → Bool
  | enumeration .. => true
  | typeAlias .. => false

end Declaration

end VocabTypes
