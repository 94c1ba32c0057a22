import VocabTypes.TypeExpr.Inline

/-!
# Types over several lines

## The printed form of source text

A record with fields is laid out with one field on each line, below its
documentation and one step further in.  Everything else stays on its line.
-/

namespace VocabTypes

open Text

mutual

/-- A type as source text whose first line starts at a depth of nesting. -/
def TypeExpr.layout (depth : Nat) : TypeExpr → String
  | .reference name => name
  | .literal value => quote value
  | .union arms => " | ".intercalate (TypeExpr.layoutArms depth arms)
  | .intersection arms => " & ".intercalate (TypeExpr.layoutFactors depth arms)
  | .parenthesized inner => "(" ++ inner.layout depth ++ ")"
  | .record [] => "\x7b\x7d"
  | .record (field :: fields) =>
      "\x7b\n" ++ field.layout (depth + 1) ++ Field.layoutAll (depth + 1) fields ++
        indent depth ++ "\x7d"

def TypeExpr.layoutArms (depth : Nat) : List TypeExpr → List String
  | [] => []
  | arm :: arms => arm.layout depth :: TypeExpr.layoutArms depth arms

/-- The arms of an intersection, in which a union of several arms is grouped. -/
def TypeExpr.layoutFactors (depth : Nat) : List TypeExpr → List String
  | [] => []
  | arm :: arms =>
      (if arm.isWideUnion then "(" ++ arm.layout depth ++ ")" else arm.layout depth) ::
        TypeExpr.layoutFactors depth arms

def Field.layout (depth : Nat) : Field → String
  | ⟨name, optional, type, comment⟩ =>
      commentBlock? comment depth ++ indent depth ++ quote name ++
        (if optional then "?" else "") ++ ": " ++ type.layout depth ++ ";\n"

def Field.layoutAll (depth : Nat) : List Field → String
  | [] => ""
  | field :: fields => field.layout depth ++ Field.layoutAll depth fields

end

end VocabTypes
