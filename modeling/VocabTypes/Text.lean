/-!
# Text

## Literals, lines and comments of the generated code

The generated code holds text from outside in two places: between the quotes of
string literals, and in block comments.  Neither can be left by what the text says.
-/

namespace VocabTypes
namespace Text

/-!
# String literals

A text is written between double quotes.  Quotes, backslashes and control
characters are escaped, so a literal stays on its line and ends at the first
quote that is not escaped.
-/

namespace Quoted

/-- The control characters: the code points below the space, and those from delete to U+009F. -/
def isControl (c : Char) : Bool :=
  c.toNat < 0x20 || (0x7f ≤ c.toNat && c.toNat ≤ 0x9f)

/-- How one character is written inside a literal. -/
def escape (c : Char) : List Char :=
  if c = '"' then ['\\', '"']
  else if c = '\\' then ['\\', '\\']
  else if c = '\n' then ['\\', 'n']
  else if c = '\r' then ['\\', 'r']
  else if c = '\t' then ['\\', 't']
  else if isControl c then '\\' :: 'u' :: '{' :: (Nat.toDigits 16 c.toNat ++ ['}'])
  else [c]

def encode (text : List Char) : List Char :=
  text.flatMap escape

end Quoted

def quote (text : String) : String :=
  String.ofList ('"' :: (Quoted.encode text.toList ++ ['"']))

/-!
# Lines

A line ends at a line feed, and a carriage return directly before the line feed
belongs to the line end.  A text that ends with a line end has no empty line
after it.
-/

/-- The lines of a text, without their ends. -/
def splitLines : List Char → List (List Char)
  | [] => []
  | '\n' :: rest => [] :: splitLines rest
  | '\r' :: '\n' :: rest => [] :: splitLines rest
  | c :: rest =>
      match splitLines rest with
      | [] => [[c]]
      | line :: lines => (c :: line) :: lines

def lines (text : String) : List String :=
  (splitLines text.toList).map String.ofList

/-!
# Documentation comments

Documentation is printed as a block comment, on one line when it has one line and
otherwise with a line of its own for each.  The mark that would close the block
is broken up wherever it occurs in the documentation.
-/

def indent (depth : Nat) : String :=
  String.ofList (List.replicate (4 * depth) ' ')

namespace CommentBlock

/-- Puts a backslash between a star and a slash that follow one another. -/
def escapeClose : List Char → List Char
  | [] => []
  | '*' :: '/' :: rest => '*' :: '\\' :: '/' :: escapeClose rest
  | c :: rest => c :: escapeClose rest

def escape (line : String) : String :=
  String.ofList (escapeClose line.toList)

def bodyLine (depth : Nat) (line : String) : String :=
  if line = "" then indent depth ++ " *\n"
  else indent depth ++ " * " ++ escape line ++ "\n"

/-- The block for some lines of documentation; none for no lines. -/
def ofLines (depth : Nat) : List String → String
  | [] => ""
  | [line] => indent depth ++ "/** " ++ escape line ++ " */\n"
  | lines =>
      indent depth ++ "/**\n" ++ String.join (lines.map (bodyLine depth)) ++
        indent depth ++ " */\n"

end CommentBlock

def commentBlock (text : String) (depth : Nat) : String :=
  CommentBlock.ofLines depth (lines text)

def commentBlock? (text : Option String) (depth : Nat) : String :=
  match text with
  | none => ""
  | some text => commentBlock text depth

end Text
end VocabTypes
