import VocabTypes.Declaration.Basic
import VocabTypes.TypeExpr.Layout

/-!
# Source text

## Printing declarations

A source text is a sequence of blocks, each of which ends its last line: a header
of line comments, single lines, documentation comments and declarations.
-/

namespace VocabTypes

open Text

def EnumMember.layout (member : EnumMember) : String :=
  commentBlock? member.comment 1 ++ indent 1 ++ member.name ++ " = " ++ quote member.value ++ ",\n"

def Declaration.layout : Declaration → String
  | .enumeration name comment members =>
      commentBlock? comment 0 ++ "export enum " ++ name ++ " \x7b\n" ++
        String.join (members.map EnumMember.layout) ++ "\x7d\n"
  | .typeAlias name comment type =>
      commentBlock? comment 0 ++ "export type " ++ name ++ " = " ++ type.layout 0 ++ ";\n"

/-- A part of a source text. -/
inductive Block where
  | header (text : String)
  | line (text : String)
  | blank
  | documentation (text : String) (depth : Nat)
  | declaration (declaration : Declaration)

namespace Block

def layout : Block → String
  | header text => String.join ((lines text).map fun line => "// " ++ line ++ "\n") ++ "\n"
  | line text => text ++ "\n"
  | blank => "\n"
  | documentation text depth => commentBlock text depth
  | declaration d => d.layout

end Block

namespace Source

def text (blocks : List Block) : String :=
  String.join (blocks.map Block.layout)

/-- The remark at the head of generated files. -/
def notice : String :=
  "Generated by typegraph. Do not edit."

/-- The blocks of a file: the notice, and the declarations with an empty line between them. -/
def ofDeclarations (declarations : List Declaration) : List Block :=
  .header notice :: (declarations.map Block.declaration).intersperse .blank

def render (declarations : List Declaration) : String :=
  text (ofDeclarations declarations)

end Source

end VocabTypes
