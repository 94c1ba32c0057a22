import VocabTypes.Text
import VocabTypes.TypeExpr.Basic

/-!
# Types on one line

## The short printed form

A type is printed without line breaks and without the documentation of its
fields.  A union of several arms is put in parentheses inside an intersection,
which binds tighter.
-/

namespace VocabTypes

open Text

mutual

def TypeExpr.inline : TypeExpr → String
  | .reference name => name
  | .literal value => quote value
  | .union arms => " | ".intercalate (TypeExpr.inlineArms arms)
  | .intersection arms => " & ".intercalate (TypeExpr.inlineFactors arms)
  | .parenthesized inner => "(" ++ inner.inline ++ ")"
  | .record [] => "\x7b\x7d"
  | .record (field :: fields) =>
      "\x7b " ++ "; ".intercalate (field.inline :: Field.inlineAll fields) ++ " \x7d"

def TypeExpr.inlineArms : List TypeExpr → List String
  | [] => []
  | arm :: arms => arm.inline :: TypeExpr.inlineArms arms

/-- The arms of an intersection, in which a union of several arms is grouped. -/
def TypeExpr.inlineFactors : List TypeExpr → List String
  | [] => []
  | arm :: arms =>
      (if arm.isWideUnion then "(" ++ arm.inline ++ ")" else arm.inline) ::
        TypeExpr.inlineFactors arms

def Field.inline : Field → String
  | ⟨name, optional, type, _⟩ =>
      quote name ++ (if optional then "?" else "") ++ ": " ++ type.inline

def Field.inlineAll : List Field → List String
  | [] => []
  | field :: fields => field.inline :: Field.inlineAll fields

end

end VocabTypes
