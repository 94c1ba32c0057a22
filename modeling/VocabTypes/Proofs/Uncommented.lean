import Mathlib.Data.List.DropRight
import VocabTypes.Proofs.Decoding

/-!
# Text without comments

## Taking block comments out of a source text

A source text is read character by character into what is kept of it.  Quoted strings
are kept whole, whatever they hold.  A documentation comment goes from its opening marks
to the first closing mark after them, and it takes the blanks before it and the line end
after it along.
-/

namespace VocabTypes
namespace Text

namespace Uncommenting

/-- Where reading has got to. -/
inductive Place where
  | code
  | inQuotes
  /-- In a quoted string, after a backslash. -/
  | escaped
  | inComment
  /-- In a comment, after a star. -/
  | atStar
  /-- Directly after a comment. -/
  | closed

/-- What has been kept of the text so far, and the place. -/
structure State where
  kept : List Char
  place : Place

/-- What is kept of the text before a comment: all but its first two marks and the blanks. -/
def beforeComment (kept : List Char) : List Char :=
  kept.dropLast.dropLast.rdropWhile (· == ' ')

/-- The state after a character that is neither in a string nor in a comment. -/
def advanceCode (kept : List Char) (c : Char) : State :=
  if c = '"' then ⟨kept ++ [c], .inQuotes⟩
  else if c = '*' ∧ ['/', '*'] <:+ kept then ⟨beforeComment kept, .inComment⟩
  else ⟨kept ++ [c], .code⟩

def advance : State → Char → State
  | ⟨kept, .code⟩, c => advanceCode kept c
  | ⟨kept, .inQuotes⟩, c =>
      ⟨kept ++ [c], if c = '"' then .code else if c = '\\' then .escaped else .inQuotes⟩
  | ⟨kept, .escaped⟩, c => ⟨kept ++ [c], .inQuotes⟩
  | ⟨kept, .inComment⟩, c => ⟨kept, if c = '*' then .atStar else .inComment⟩
  | ⟨kept, .atStar⟩, c =>
      ⟨kept, if c = '/' then .closed else if c = '*' then .atStar else .inComment⟩
  | ⟨kept, .closed⟩, c => if c = '\n' then ⟨kept, .code⟩ else advanceCode kept c

def read (state : State) (text : List Char) : State :=
  text.foldl advance state

end Uncommenting

open Uncommenting

/-- A source text without its documentation comments. -/
def uncommented (text : String) : String :=
  String.ofList (read ⟨[], .code⟩ text.toList).kept

namespace Uncommenting

theorem read_append (state : State) (text more : List Char) :
    read state (text ++ more) = read (read state text) more :=
  List.foldl_append

theorem read_cons (state : State) (c : Char) (text : List Char) :
    read state (c :: text) = read (advance state c) text :=
  rfl

/-!
# Code

Reading what has neither quotes nor stars keeps it, and so does reading a quoted string.
-/

/-- Wherever there is code, some code is kept of a text, with code after it. -/
def Leaves (text code : List Char) : Prop :=
  ∀ kept, read ⟨kept, .code⟩ text = ⟨kept ++ code, .code⟩

namespace Leaves

theorem nil : Leaves [] [] := by
  intro kept
  rw [List.append_nil]
  rfl

theorem append {text more code moreCode : List Char} (h : Leaves text code)
    (hmore : Leaves more moreCode) : Leaves (text ++ more) (code ++ moreCode) := by
  intro kept
  rw [read_append, h, hmore, List.append_assoc]

theorem flatMap {α : Type} {text code : α → List Char} {items : List α}
    (h : ∀ item ∈ items, Leaves (text item) (code item)) :
    Leaves (items.flatMap text) (items.flatMap code) := by
  induction items with
  | nil => exact nil
  | cons item items ih =>
      rcases List.forall_mem_cons.mp h with ⟨hitem, hitems⟩
      rw [List.flatMap_cons, List.flatMap_cons]
      exact hitem.append (ih hitems)

end Leaves

/-- A character with which neither a string nor a comment opens. -/
def isInert (c : Char) : Bool :=
  c != '"' && c != '*'

theorem leaves_inert {text : List Char} (h : text.all isInert = true) : Leaves text text := by
  induction text with
  | nil => exact Leaves.nil
  | cons c text ih =>
      rw [List.all_cons, Bool.and_eq_true, isInert, Bool.and_eq_true, bne_iff_ne,
        bne_iff_ne] at h
      rcases h with ⟨⟨hquote, hstar⟩, htext⟩
      intro kept
      have hadvance : advance ⟨kept, .code⟩ c = ⟨kept ++ [c], .code⟩ := by
        simp [advance, advanceCode, hquote, hstar]
      rw [read_cons, hadvance, ih htext, List.append_assoc, List.singleton_append]

/-!
# Quoted strings
-/

theorem read_inQuotes {text : List Char} (h : ∀ c ∈ text, c ≠ '"' ∧ c ≠ '\\')
    (kept : List Char) : read ⟨kept, .inQuotes⟩ text = ⟨kept ++ text, .inQuotes⟩ := by
  induction text generalizing kept with
  | nil =>
      rw [List.append_nil]
      rfl
  | cons c text ih =>
      rcases List.forall_mem_cons.mp h with ⟨⟨hquote, hslash⟩, htext⟩
      have hadvance : advance ⟨kept, .inQuotes⟩ c = ⟨kept ++ [c], .inQuotes⟩ := by
        simp [advance, hquote, hslash]
      rw [read_cons, hadvance, ih htext, List.append_assoc, List.singleton_append]

theorem read_inQuotes_slash (kept : List Char) (c : Char) :
    read ⟨kept, .inQuotes⟩ ['\\', c] = ⟨kept ++ ['\\', c], .inQuotes⟩ := by
  have hslash : advance ⟨kept, .inQuotes⟩ '\\' = ⟨kept ++ ['\\'], .escaped⟩ := by
    simp [advance]
  rw [read_cons, hslash, read_cons, advance, List.append_assoc]
  rfl

theorem read_inQuotes_escape (kept : List Char) (c : Char) :
    read ⟨kept, .inQuotes⟩ (Quoted.escape c) = ⟨kept ++ Quoted.escape c, .inQuotes⟩ := by
  have hwritten := Quoted.written_escape c
  generalize Quoted.escape c = written at hwritten ⊢
  cases hwritten with
  | letter letter hletter hcode => exact read_inQuotes_slash kept letter
  | code =>
      have hdigits : ∀ d ∈ '{' :: (Nat.toDigits 16 c.toNat ++ ['}']), d ≠ '"' ∧ d ≠ '\\' := by
        intro d hd
        rcases List.mem_cons.mp hd with hopen | hd
        · simp [hopen]
        rcases List.mem_append.mp hd with hdigit | hclose
        · exact Quoted.ne_of_mem_toDigits hdigit
        · simp [List.mem_singleton.mp hclose]
      have hsplit : '\\' :: 'u' :: '{' :: (Nat.toDigits 16 c.toNat ++ ['}']) =
          ['\\', 'u'] ++ '{' :: (Nat.toDigits 16 c.toNat ++ ['}']) := rfl
      rw [hsplit, read_append, read_inQuotes_slash, read_inQuotes hdigits, List.append_assoc]
  | plain hquote hslash hcontrol =>
      apply read_inQuotes
      intro d hd
      rw [List.mem_singleton.mp hd]
      exact ⟨hquote, hslash⟩

theorem read_inQuotes_encode (kept text : List Char) :
    read ⟨kept, .inQuotes⟩ (Quoted.encode text) = ⟨kept ++ Quoted.encode text, .inQuotes⟩ := by
  unfold Quoted.encode
  induction text generalizing kept with
  | nil =>
      rw [List.flatMap_nil, List.append_nil]
      rfl
  | cons c text ih =>
      rw [List.flatMap_cons, read_append, read_inQuotes_escape, ih, List.append_assoc]

/-- A string is kept as it is written, with whatever it holds. -/
theorem leaves_quote (text : String) : Leaves (quote text).toList (quote text).toList := by
  intro kept
  have hopen : advance ⟨kept, .code⟩ '"' = ⟨kept ++ ['"'], .inQuotes⟩ := by
    simp [advance, advanceCode]
  rw [quote, String.toList_ofList, read_cons, hopen, read_append, read_inQuotes_encode]
  simp [read, advance]

/-!
# Inside a comment

The only place at which a block of documentation has a star before a slash is its end.
-/

/-- A part of a comment that does not end it. -/
def Passes (text : List Char) : Prop :=
  ∀ kept, read ⟨kept, .inComment⟩ text = ⟨kept, .inComment⟩

theorem Passes.append {text more : List Char} (h : Passes text) (hmore : Passes more) :
    Passes (text ++ more) := by
  intro kept
  rw [read_append, h, hmore]

theorem Passes.flatMap {α : Type} {text : α → List Char} (h : ∀ item, Passes (text item))
    (items : List α) : Passes (items.flatMap text) := by
  induction items with
  | nil => exact fun _ => rfl
  | cons item items ih =>
      rw [List.flatMap_cons]
      exact (h item).append ih

theorem passes_of_not_mem {text : List Char} (h : '*' ∉ text) : Passes text := by
  induction text with
  | nil => exact fun _ => rfl
  | cons c text ih =>
      rw [List.mem_cons, not_or] at h
      rcases h with ⟨hstar, htext⟩
      intro kept
      have hadvance : advance ⟨kept, .inComment⟩ c = ⟨kept, .inComment⟩ := by
        simp [advance, Ne.symm hstar]
      rw [read_cons, hadvance, ih htext]

/-- A star that is followed by a blank. -/
theorem passes_star : Passes ['*', ' '] :=
  fun _ => rfl

/-- An escaped line does not end a comment, though it may leave a star behind. -/
theorem read_escapeClose (line kept : List Char) {place : Place}
    (hplace : place = .inComment ∨ place = .atStar ∧ line.head? ≠ some '/') :
    ∃ last, (last = .inComment ∨ last = .atStar) ∧
      read ⟨kept, place⟩ (CommentBlock.escapeClose line) = ⟨kept, last⟩ := by
  induction line using CommentBlock.escapeClose.induct generalizing place with
  | case1 => exact ⟨place, hplace.imp id And.left, rfl⟩
  | case2 rest ih =>
      have hbroken : read ⟨kept, place⟩ ['*', '\\', '/'] = ⟨kept, .inComment⟩ := by
        rcases hplace with rfl | ⟨rfl, _⟩
        · rfl
        · rfl
      have hsplit : CommentBlock.escapeClose ('*' :: '/' :: rest) =
          ['*', '\\', '/'] ++ CommentBlock.escapeClose rest := by
        rw [CommentBlock.escapeClose]
        rfl
      rw [hsplit, read_append, hbroken]
      exact ih (Or.inl rfl)
  | case3 c rest hopen ih =>
      have hslash : place = .atStar → c ≠ '/' := by
        intro hstar
        rcases hplace with rfl | ⟨_, hhead⟩
        · cases hstar
        · simpa using hhead
      have hrest : c = '*' → rest.head? ≠ some '/' := by
        intro hstar hhead
        cases rest with
        | nil => cases hhead
        | cons d rest =>
            cases hhead
            exact hopen rest hstar rfl
      have hadvance : advance ⟨kept, place⟩ c =
          ⟨kept, if c = '*' then .atStar else .inComment⟩ := by
        rcases hplace with rfl | ⟨rfl, _⟩
        · rfl
        · rw [advance, if_neg (hslash rfl)]
      rw [CommentBlock.escapeClose.eq_3 _ _ hopen, read_cons, hadvance]
      apply ih
      by_cases hstar : c = '*'
      · rw [if_pos hstar]
        exact Or.inr ⟨rfl, hrest hstar⟩
      · rw [if_neg hstar]
        exact Or.inl rfl

theorem passes_escape (line : String) {c : Char} (hstar : c ≠ '*') (hslash : c ≠ '/') :
    Passes ((CommentBlock.escape line).toList ++ [c]) := by
  intro kept
  rcases read_escapeClose line.toList kept (Or.inl rfl) with ⟨last, hlast, hread⟩
  rw [CommentBlock.escape, String.toList_ofList, read_append, hread]
  rcases hlast with rfl | rfl
  · simp [read, advance, hstar]
  · simp [read, advance, hstar, hslash]

theorem passes_indent (depth : Nat) : Passes (indent depth).toList := by
  apply passes_of_not_mem
  rw [indent, String.toList_ofList]
  intro hmem
  cases List.eq_of_mem_replicate hmem

theorem passes_bodyLine (depth : Nat) (line : String) :
    Passes (CommentBlock.bodyLine depth line).toList := by
  have hindent := passes_indent depth
  unfold CommentBlock.bodyLine
  split
  · rw [String.toList_append]
    exact hindent.append fun _ => rfl
  · have hline := passes_escape line (c := '\n') (by decide) (by decide)
    have hblank : Passes [' '] := fun _ => rfl
    have htext : (indent depth ++ " * " ++ CommentBlock.escape line ++ "\n").toList =
        (indent depth).toList ++ ([' '] ++ (['*', ' '] ++
          ((CommentBlock.escape line).toList ++ ['\n']))) := by
      simp [String.toList_append]
    rw [htext]
    exact hindent.append (hblank.append (passes_star.append hline))

/-!
# Whole lines

A comment stands on lines of its own, so the blanks before it reach back to the end of
the line before.
-/

def EndsLine (kept : List Char) : Prop :=
  kept.getLast? = some '\n'

theorem EndsLine.append_left {code : List Char} (h : EndsLine code) (kept : List Char) :
    EndsLine (kept ++ code) := by
  rw [EndsLine, List.getLast?_append, h]
  rfl

theorem rdropWhile_of_endsLine {kept : List Char} (h : EndsLine kept) (width : Nat) :
    (kept ++ List.replicate width ' ').rdropWhile (· == ' ') = kept := by
  induction width with
  | zero =>
      rcases List.getLast?_eq_some_iff.mp h with ⟨front, rfl⟩
      rw [List.replicate_zero, List.append_nil]
      exact List.rdropWhile_concat_neg _ _ _ (by decide)
  | succ width ih =>
      rw [List.replicate_succ', ← List.append_assoc]
      exact (List.rdropWhile_concat_pos _ _ _ (by decide)).trans ih

/-- After a line, the opening marks of a comment take back the blanks before them. -/
theorem read_opening {kept : List Char} (h : EndsLine kept) (depth : Nat) :
    read ⟨kept, .code⟩ ((indent depth).toList ++ ['/', '*', '*']) = ⟨kept, .inComment⟩ := by
  have hblanks : (List.replicate (4 * depth) ' ').all isInert = true := by
    rw [List.all_replicate]
    simp [isInert]
  have hslash : ¬ ['/', '*'] <:+ kept ++ List.replicate (4 * depth) ' ' ++ ['/'] := by
    rintro ⟨front, hfront⟩
    have hlast := congrArg List.getLast? hfront
    simp at hlast
  have hmarks : ∀ front : List Char, ¬ ['/', '*'] <:+ front ++ ['/'] →
      read ⟨front, .code⟩ ['/', '*', '*'] = ⟨front.rdropWhile (· == ' '), .inComment⟩ := by
    intro front hfront
    have hopen : ['/', '*'] <:+ front ++ ['/', '*'] := List.suffix_append _ _
    have hfirst : advance ⟨front, .code⟩ '/' = ⟨front ++ ['/'], .code⟩ := by
      simp [advance, advanceCode]
    have hsecond : advance ⟨front ++ ['/'], .code⟩ '*' = ⟨front ++ ['/', '*'], .code⟩ := by
      simp [advance, advanceCode, hfront]
    have hthird : advance ⟨front ++ ['/', '*'], .code⟩ '*' =
        ⟨front.rdropWhile (· == ' '), .inComment⟩ := by
      simp [advance, advanceCode, hopen, beforeComment]
    rw [read_cons, hfirst, read_cons, hsecond, read_cons, hthird]
    rfl
  rw [read_append, indent, String.toList_ofList, leaves_inert hblanks, hmarks _ hslash,
    rdropWhile_of_endsLine h]

theorem read_closing (kept : List Char) :
    read ⟨kept, .inComment⟩ ['*', '/', '\n'] = ⟨kept, .code⟩ :=
  rfl

/-- After a line, whole lines of code are kept of a text. -/
structure LeavesLines (text code : List Char) : Prop where
  read_eq : ∀ kept, EndsLine kept → read ⟨kept, .code⟩ text = ⟨kept ++ code, .code⟩
  endsLine : ∀ kept, EndsLine kept → EndsLine (kept ++ code)

theorem Leaves.lines {text code : List Char} (h : Leaves text code) (hend : EndsLine code) :
    LeavesLines text code where
  read_eq := fun kept _ => h kept
  endsLine := fun kept _ => hend.append_left kept

/-- A line that ends in a mark. -/
theorem Leaves.line {text code : List Char} (h : Leaves text code) (mark : Char)
    (hmark : isInert mark = true) : LeavesLines (text ++ [mark, '\n']) (code ++ [mark, '\n']) := by
  have hall : [mark, '\n'].all isInert = true := by
    rw [List.all_cons, hmark]
    rfl
  have hend : Leaves [mark, '\n'] [mark, '\n'] := leaves_inert hall
  have hends : EndsLine [mark, '\n'] := rfl
  exact (h.append hend).lines (hends.append_left code)

theorem Leaves.append_lines {text more code moreCode : List Char} (h : Leaves text code)
    (hend : EndsLine code) (hmore : LeavesLines more moreCode) :
    Leaves (text ++ more) (code ++ moreCode) := by
  intro kept
  rw [read_append, h, hmore.read_eq _ (hend.append_left kept), List.append_assoc]

namespace LeavesLines

theorem nil : LeavesLines [] [] where
  read_eq := fun kept _ => Leaves.nil kept
  endsLine := by
    intro kept hkept
    rw [List.append_nil]
    exact hkept

theorem append {text more code moreCode : List Char} (h : LeavesLines text code)
    (hmore : LeavesLines more moreCode) : LeavesLines (text ++ more) (code ++ moreCode) where
  read_eq := by
    intro kept hkept
    rw [read_append, h.read_eq kept hkept, hmore.read_eq _ (h.endsLine kept hkept),
      List.append_assoc]
  endsLine := by
    intro kept hkept
    rw [← List.append_assoc]
    exact hmore.endsLine _ (h.endsLine kept hkept)

theorem flatMap {α : Type} {text code : α → List Char} {items : List α}
    (h : ∀ item ∈ items, LeavesLines (text item) (code item)) :
    LeavesLines (items.flatMap text) (items.flatMap code) := by
  induction items with
  | nil => exact nil
  | cons item items ih =>
      rcases List.forall_mem_cons.mp h with ⟨hitem, hitems⟩
      rw [List.flatMap_cons, List.flatMap_cons]
      exact hitem.append (ih hitems)

/-- Lines of which nothing is kept. -/
theorem of_vanishes {text : List Char}
    (h : ∀ kept, EndsLine kept → read ⟨kept, .code⟩ text = ⟨kept, .code⟩) :
    LeavesLines text [] where
  read_eq := by
    intro kept hkept
    rw [List.append_nil]
    exact h kept hkept
  endsLine := nil.endsLine

end LeavesLines

/-!
# Blocks of documentation
-/

theorem toList_join_map {α : Type} (f : α → String) (items : List α) :
    (String.join (items.map f)).toList = items.flatMap fun item => (f item).toList := by
  induction items with
  | nil => rfl
  | cons item items ih =>
      rw [List.map_cons, String.join_cons, String.toList_append, ih, List.flatMap_cons]

theorem leavesLines_ofLines (depth : Nat) (lines : List String) :
    LeavesLines (CommentBlock.ofLines depth lines).toList [] := by
  match lines with
  | [] => exact LeavesLines.nil
  | [line] =>
      have hline := passes_escape line (c := ' ') (by decide) (by decide)
      have hblank : Passes [' '] := fun _ => rfl
      have htext : (CommentBlock.ofLines depth [line]).toList =
          ((indent depth).toList ++ ['/', '*', '*']) ++
            (([' '] ++ ((CommentBlock.escape line).toList ++ [' '])) ++ ['*', '/', '\n']) := by
        simp [CommentBlock.ofLines, String.toList_append]
      apply LeavesLines.of_vanishes
      intro kept hkept
      rw [htext, read_append, read_opening hkept, read_append, hblank.append hline,
        read_closing]
  | first :: second :: rest =>
      have hbody := Passes.flatMap (passes_bodyLine depth) (first :: second :: rest)
      have hfeed : Passes ['\n'] := fun _ => rfl
      have hblank : Passes [' '] := fun _ => rfl
      have htext : (CommentBlock.ofLines depth (first :: second :: rest)).toList =
          ((indent depth).toList ++ ['/', '*', '*']) ++
            ((['\n'] ++ ((first :: second :: rest).flatMap fun line =>
              (CommentBlock.bodyLine depth line).toList) ++
                ((indent depth).toList ++ [' '])) ++ ['*', '/', '\n']) := by
        have hlines : CommentBlock.ofLines depth (first :: second :: rest) =
            indent depth ++ "/**\n" ++
              String.join ((first :: second :: rest).map (CommentBlock.bodyLine depth)) ++
                indent depth ++ " */\n" := rfl
        rw [hlines, ← toList_join_map]
        simp [String.toList_append]
      apply LeavesLines.of_vanishes
      intro kept hkept
      rw [htext, read_append, read_opening hkept, read_append,
        (hfeed.append hbody).append ((passes_indent depth).append hblank), read_closing]

/-- Nothing is kept of a block of documentation, whatever its text. -/
theorem leavesLines_commentBlock? (text : Option String) (depth : Nat) :
    LeavesLines (commentBlock? text depth).toList [] := by
  cases text with
  | none => exact LeavesLines.nil
  | some text => exact leavesLines_ofLines depth (lines text)

end Uncommenting
end Text
end VocabTypes
