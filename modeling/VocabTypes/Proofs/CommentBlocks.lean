import Mathlib.Data.List.Forall2
import VocabTypes.Proofs.Headings

/-!
# Blocks of documentation

## One block that is closed once

Documentation is written as one block comment.  A mark that closes a comment is broken up
wherever the documentation has it, and what is written around a line can neither start nor
end such a mark.  So the only place at which a block is closed is its end, whatever the
documentation says and over however many lines it goes.
-/

namespace VocabTypes
namespace Text

/-!
# Closing marks
-/

/-- A text in which no comment is closed. -/
def LacksClosing (text : List Char) : Prop :=
  ¬ ['*', '/'] <:+: text

theorem lacksClosing_of_not_mem {text : List Char} (h : '*' ∉ text) : LacksClosing text :=
  fun hclosing => h (hclosing.subset List.mem_cons_self)

/-- A closing mark starts with the first character of a text, or stands in the rest. -/
theorem lacksClosing_cons_iff {c : Char} {text : List Char} :
    LacksClosing (c :: text) ↔ ¬ (c = '*' ∧ text.head? = some '/') ∧ LacksClosing text := by
  have hstart : ['*', '/'] <+: c :: text ↔ c = '*' ∧ text.head? = some '/' := by
    cases text with
    | nil => simp [List.cons_prefix_cons]
    | cons d text => simp [List.cons_prefix_cons, eq_comm]
  rw [LacksClosing, List.infix_cons_iff, hstart, not_or]
  rfl

/-- A closing mark of two texts in a row stands in one of them, or between them. -/
theorem LacksClosing.append {text more : List Char} (h : LacksClosing text)
    (hmore : LacksClosing more) (hbetween : text.getLast? ≠ some '*' ∨ more.head? ≠ some '/') :
    LacksClosing (text ++ more) := by
  induction text with
  | nil => exact hmore
  | cons c text ih =>
      rcases lacksClosing_cons_iff.mp h with ⟨hstart, htext⟩
      rw [List.cons_append, lacksClosing_cons_iff]
      cases text with
      | nil =>
          refine ⟨?_, hmore⟩
          rintro ⟨rfl, hslash⟩
          exact hbetween.elim (fun hstar => hstar rfl) fun hhead => hhead hslash
      | cons d text =>
          refine ⟨hstart, ih htext ?_⟩
          rwa [List.getLast?_cons_cons] at hbetween

/-- A part of a comment that does not close it, whatever follows. -/
structure Harmless (text : List Char) : Prop where
  lacksClosing : LacksClosing text
  noStarLast : text.getLast? ≠ some '*'

namespace Harmless

variable {text more : List Char}

theorem append (h : Harmless text) (hmore : Harmless more) : Harmless (text ++ more) where
  lacksClosing := h.lacksClosing.append hmore.lacksClosing (Or.inl h.noStarLast)
  noStarLast := by
    rw [List.getLast?_append]
    cases hlast : more.getLast? with
    | none => exact h.noStarLast
    | some c =>
        rw [Option.some_or, ← hlast]
        exact hmore.noStarLast

theorem flatMap {α : Type} {text : α → List Char} {items : List α}
    (h : ∀ item ∈ items, Harmless (text item)) : Harmless (items.flatMap text) :=
  forall_flatMap ⟨lacksClosing_of_not_mem List.not_mem_nil, by simp⟩ append h

end Harmless

theorem harmless_of_not_mem {text : List Char} (h : '*' ∉ text) : Harmless text where
  lacksClosing := lacksClosing_of_not_mem h
  noStarLast := fun hlast => h (List.mem_of_getLast? hlast)

/-- A character that is neither half of a closing mark ends what may end in a star. -/
theorem LacksClosing.harmless_concat {text : List Char} (h : LacksClosing text) {c : Char}
    (hstar : c ≠ '*') (hslash : c ≠ '/') : Harmless (text ++ [c]) where
  lacksClosing := by
    apply h.append (lacksClosing_of_not_mem ?_) (Or.inr ?_)
    · simpa using hstar.symm
    · simpa using hslash
  noStarLast := by
    simpa using hstar

/-- After a part that does not close a comment, the mark at its end is the only one. -/
theorem eq_of_closing {front before after : List Char} (h : LacksClosing front)
    (hsplit : front ++ ['*', '/', '\n'] = before ++ (['*', '/'] ++ after)) : after = ['\n'] := by
  rcases List.append_eq_append_iff.mp hsplit with ⟨rest, -, hmarks⟩ | ⟨rest, hfront, hmarks⟩
  · -- The mark found starts at the last mark or later, where there is room for one only.
    match rest with
    | [] => simpa using hmarks.symm
    | [_] => simp at hmarks
    | [_, _] => simp at hmarks
    | _ :: _ :: _ :: _ => simp at hmarks
  · -- The mark found starts before the last one: inside the front, or on its last character.
    match rest with
    | [] => simpa using hmarks
    | [_] => simp at hmarks
    | c :: d :: rest =>
        rw [List.cons_append, List.cons_append, List.cons_append, List.cons_append,
          List.cons.injEq, List.cons.injEq] at hmarks
        rcases hmarks with ⟨rfl, rfl, -⟩
        exact absurd ⟨before, rest, by rw [hfront]; simp⟩ h

/-!
# Lines with their closing marks broken up
-/

/-- Every closing mark of a line is broken up, and the pieces between the marks are kept. -/
def Breaks (line written : String) : Prop :=
  ∃ pieces : List String, (∀ piece ∈ pieces, LacksClosing piece.toList) ∧
    line = "*/".intercalate pieces ∧ written = "*\\/".intercalate pieces

namespace CommentBlock

theorem head?_escapeClose (line : List Char) : (escapeClose line).head? = line.head? := by
  fun_cases escapeClose line with
  | case1 => rfl
  | case2 rest => rfl
  | case3 c rest hopen => rfl

theorem lacksClosing_escapeClose (line : List Char) : LacksClosing (escapeClose line) := by
  fun_induction escapeClose line with
  | case1 => exact lacksClosing_of_not_mem List.not_mem_nil
  | case2 rest ih => simp [lacksClosing_cons_iff, ih]
  | case3 c rest hopen ih =>
      rw [lacksClosing_cons_iff, head?_escapeClose]
      refine ⟨?_, ih⟩
      rintro ⟨hstar, hslash⟩
      rcases List.head?_eq_some_iff.mp hslash with ⟨tail, htail⟩
      exact hopen tail hstar htail

/-- What comes before the first closing mark is kept. -/
theorem escapeClose_append {piece : List Char} (h : LacksClosing piece) (rest : List Char) :
    escapeClose (piece ++ '*' :: '/' :: rest) =
      piece ++ '*' :: '\\' :: '/' :: escapeClose rest := by
  induction piece with
  | nil => rw [List.nil_append, escapeClose, List.nil_append]
  | cons c piece ih =>
      rcases lacksClosing_cons_iff.mp h with ⟨hstart, hpiece⟩
      have hopen : ∀ tail, c = '*' → piece ++ '*' :: '/' :: rest = '/' :: tail → False := by
        intro tail hstar htail
        cases piece with
        | nil => simp at htail
        | cons d piece =>
            rw [List.cons_append, List.cons.injEq] at htail
            exact hstart ⟨hstar, congrArg some htail.left⟩
      rw [List.cons_append, escapeClose.eq_3 _ _ hopen, ih hpiece, List.cons_append]

theorem escapeClose_of_lacksClosing {piece : List Char} (h : LacksClosing piece) :
    escapeClose piece = piece := by
  induction piece with
  | nil => rfl
  | cons c piece ih =>
      rcases lacksClosing_cons_iff.mp h with ⟨hstart, hpiece⟩
      have hopen : ∀ tail, c = '*' → piece = '/' :: tail → False := by
        rintro tail hstar rfl
        exact hstart ⟨hstar, rfl⟩
      rw [escapeClose.eq_3 _ _ hopen, ih hpiece]

theorem escapeClose_intercalate {pieces : List (List Char)}
    (h : ∀ piece ∈ pieces, LacksClosing piece) :
    escapeClose (['*', '/'].intercalate pieces) = ['*', '\\', '/'].intercalate pieces := by
  induction pieces with
  | nil => rfl
  | cons piece pieces ih =>
      rcases List.forall_mem_cons.mp h with ⟨hpiece, hpieces⟩
      cases pieces with
      | nil => simpa using escapeClose_of_lacksClosing hpiece
      | cons second pieces =>
          rw [List.intercalate_cons_cons, List.intercalate_cons_cons, List.append_assoc,
            List.append_assoc]
          simp [escapeClose_append hpiece, ih hpieces]

/-- Every line has pieces between its closing marks. -/
theorem exists_pieces (line : List Char) :
    ∃ piece pieces, (∀ part ∈ piece :: pieces, LacksClosing part) ∧
      line = ['*', '/'].intercalate (piece :: pieces) := by
  fun_induction escapeClose line with
  | case1 => exact ⟨[], [], by simp [lacksClosing_of_not_mem], rfl⟩
  | case2 rest ih =>
      rcases ih with ⟨piece, pieces, hpieces, rfl⟩
      refine ⟨[], piece :: pieces, ?_, ?_⟩
      · intro part hpart
        rcases List.mem_cons.mp hpart with rfl | hpart
        · exact lacksClosing_of_not_mem List.not_mem_nil
        · exact hpieces part hpart
      · rw [List.intercalate_cons_cons]
        rfl
  | case3 c rest hopen ih =>
      rcases ih with ⟨piece, pieces, hpieces, rfl⟩
      rcases List.forall_mem_cons.mp hpieces with ⟨hpiece, hothers⟩
      refine ⟨c :: piece, pieces, List.forall_mem_cons.mpr ⟨?_, hothers⟩, ?_⟩
      · rw [lacksClosing_cons_iff]
        refine ⟨?_, hpiece⟩
        rintro ⟨hstar, hslash⟩
        rcases List.head?_eq_some_iff.mp hslash with ⟨tail, rfl⟩
        apply hopen (['*', '/'].intercalate (tail :: pieces)) hstar
        rw [List.intercalate_cons_cons_left]
      · rw [List.intercalate_cons_cons_left]

end CommentBlock

/-- A line is written in one way only. -/
theorem breaks_iff {line written : String} :
    Breaks line written ↔ written = CommentBlock.escape line := by
  constructor
  · rintro ⟨pieces, hpieces, rfl, rfl⟩
    rw [CommentBlock.escape, String.toList_intercalate]
    have hletters : ∀ piece ∈ pieces.map String.toList, LacksClosing piece := by
      simpa using hpieces
    apply String.toList_inj.mp
    rw [String.toList_ofList, String.toList_intercalate]
    exact (CommentBlock.escapeClose_intercalate hletters).symm
  · rintro rfl
    rcases CommentBlock.exists_pieces line.toList with ⟨piece, pieces, hpieces, hline⟩
    have hletters : ((piece :: pieces).map String.ofList).map String.toList = piece :: pieces := by
      rw [List.map_map]
      simp
    refine ⟨(piece :: pieces).map String.ofList, ?_, ?_, ?_⟩
    · simpa using hpieces
    · apply String.toList_inj.mp
      rw [String.toList_intercalate, hletters]
      exact hline
    · apply String.toList_inj.mp
      rw [String.toList_intercalate, hletters, CommentBlock.escape, String.toList_ofList, hline]
      exact CommentBlock.escapeClose_intercalate hpieces

/-!
# Blocks
-/

/-- The row of a block on which a line of documentation is written. -/
def bodyRow (depth : Nat) (written : String) : String :=
  indent depth ++ if written = "" then " *" else " * " ++ written

/-- The rows of a block: one alone, or one for each line between an opening and a closing one. -/
def blockRows (depth : Nat) : List String → List String
  | [written] => [indent depth ++ "/** " ++ written ++ " */"]
  | lines => (indent depth ++ "/**") :: (lines.map (bodyRow depth) ++ [indent depth ++ " */"])

/-- A text is one block comment over some lines of documentation, at a depth of nesting. -/
structure IsBlock (depth : Nat) (documentation : List String) (block : String) : Prop where
  opens : (indent depth ++ "/**").toList <+: block.toList
  closes : "*/\n".toList <:+ block.toList
  closesOnce : ∀ before after, block = before ++ "*/" ++ after → after = "\n"
  rows : ∃ written, List.Forall₂ Breaks documentation written ∧
    block.toList.splitOn '\n' = (blockRows depth written).map String.toList ++ [[]]

theorem splitOn_flatMap {rows : List (List Char)} (h : ∀ row ∈ rows, '\n' ∉ row) :
    (rows.flatMap fun row => row ++ ['\n']).splitOn '\n' = rows ++ [[]] := by
  induction rows with
  | nil => rfl
  | cons row rows ih =>
      rcases List.forall_mem_cons.mp h with ⟨hrow, hrows⟩
      rw [List.flatMap_cons, List.append_assoc, List.singleton_append,
        List.splitOn_append_cons_self_of_not_mem hrow, ih hrows, List.cons_append]

namespace CommentBlock

variable {depth : Nat}

theorem escape_eq_empty_iff {line : String} : escape line = "" ↔ line = "" := by
  have hhead := head?_escapeClose line.toList
  rw [← String.toList_eq_nil_iff, escape, String.toList_ofList, ← List.head?_eq_none_iff, hhead,
    List.head?_eq_none_iff, String.toList_eq_nil_iff]

/-- A line of documentation is written on its row. -/
theorem bodyLine_eq (depth : Nat) (line : String) :
    bodyLine depth line = bodyRow depth (escape line) ++ "\n" := by
  unfold bodyLine bodyRow
  by_cases hempty : line = ""
  · rw [if_pos hempty, if_pos (escape_eq_empty_iff.mpr hempty), String.append_assoc]
    rfl
  · rw [if_neg hempty, if_neg (mt escape_eq_empty_iff.mp hempty)]
    simp only [String.append_assoc]

theorem ofLines_of_two_le (depth : Nat) {lines : List String} (h : 2 ≤ lines.length) :
    ofLines depth lines =
      indent depth ++ "/**\n" ++ String.join (lines.map (bodyLine depth)) ++
        indent depth ++ " */\n" := by
  match lines with
  | _ :: _ :: _ => rfl

theorem blockRows_of_two_le (depth : Nat) {lines : List String} (h : 2 ≤ lines.length) :
    blockRows depth lines =
      (indent depth ++ "/**") :: (lines.map (bodyRow depth) ++ [indent depth ++ " */"]) := by
  match lines with
  | _ :: _ :: _ => rfl

theorem toList_ofLines {lines : List String} (h : lines ≠ []) :
    (ofLines depth lines).toList =
      ((blockRows depth (lines.map escape)).map String.toList).flatMap
        fun row => row ++ ['\n'] := by
  match lines with
  | [line] =>
    simp [ofLines, blockRows, String.toList_append]
  | first :: second :: rest =>
    rw [ofLines_of_two_le depth (by simp), blockRows_of_two_le depth (by simp)]
    generalize first :: second :: rest = lines
    simp [String.toList_append, List.flatMap_map, bodyLine_eq]

/-!
# Rows hold no line end
-/

theorem not_mem_bodyRow {written : String} (h : '\n' ∉ written.toList) :
    '\n' ∉ (bodyRow depth written).toList := by
  have hblanks := not_mem_indent depth
  unfold bodyRow
  split
  · simp [String.toList_append, hblanks]
  · simp [String.toList_append, hblanks, h]

theorem not_mem_blockRows {lines : List String} (h : ∀ line ∈ lines, '\n' ∉ line.toList) :
    ∀ row ∈ (blockRows depth lines).map String.toList, '\n' ∉ row := by
  have hblanks := not_mem_indent depth
  match lines with
  | [] => simp [blockRows, String.toList_append, hblanks]
  | [line] =>
      have hline := h line List.mem_cons_self
      simp [blockRows, String.toList_append, hblanks, hline]
  | first :: second :: rest =>
      rw [blockRows_of_two_le depth (by simp)]
      intro row hrow
      rw [List.map_cons, List.map_append, List.mem_cons, List.mem_append, List.map_map] at hrow
      rcases hrow with rfl | hbody | hend
      · simp [String.toList_append, hblanks]
      · rcases List.mem_map.mp hbody with ⟨line, hline, rfl⟩
        exact not_mem_bodyRow (h line hline)
      · rw [List.map_singleton, List.mem_singleton] at hend
        simp [hend, String.toList_append, hblanks]

/-!
# The front of a block

All that comes before the mark at the end of a block lacks a closing mark, since no part of it
ends in a star.
-/

theorem harmless_indent (depth : Nat) : Harmless (indent depth).toList := by
  apply harmless_of_not_mem
  rw [indent, String.toList_ofList]
  intro hmem
  cases List.eq_of_mem_replicate hmem

theorem harmless_opening {c : Char} (hstar : c ≠ '*') (hslash : c ≠ '/') :
    Harmless ['/', '*', '*', c] := by
  have hmarks : LacksClosing ['/', '*', '*'] := by
    simp [lacksClosing_cons_iff, lacksClosing_of_not_mem]
  exact hmarks.harmless_concat hstar hslash

theorem harmless_escape (line : String) {c : Char} (hstar : c ≠ '*') (hslash : c ≠ '/') :
    Harmless ((escape line).toList ++ [c]) := by
  rw [escape, String.toList_ofList]
  exact (lacksClosing_escapeClose line.toList).harmless_concat hstar hslash

theorem harmless_bodyLine (depth : Nat) (line : String) :
    Harmless (bodyLine depth line).toList := by
  have hstar : LacksClosing [' ', '*'] := by
    simp [lacksClosing_cons_iff, lacksClosing_of_not_mem]
  unfold bodyLine
  split
  · have hrow := (harmless_indent depth).append
      (hstar.harmless_concat (c := '\n') (by decide) (by decide))
    simpa [String.toList_append] using hrow
  · have hstart := (harmless_indent depth).append
      (hstar.harmless_concat (c := ' ') (by decide) (by decide))
    have hrow := hstart.append (harmless_escape line (c := '\n') (by decide) (by decide))
    simpa [String.toList_append] using hrow

theorem exists_front (depth : Nat) {lines : List String} (h : lines ≠ []) :
    ∃ front, LacksClosing front ∧ (ofLines depth lines).toList = front ++ ['*', '/', '\n'] := by
  have hindent := harmless_indent depth
  match lines with
  | [line] =>
      have hopen := hindent.append (harmless_opening (c := ' ') (by decide) (by decide))
      have hfront := hopen.append (harmless_escape line (c := ' ') (by decide) (by decide))
      exact ⟨_, hfront.lacksClosing, by simp [ofLines, String.toList_append]⟩
  | first :: second :: rest =>
      rw [ofLines_of_two_le depth (by simp)]
      generalize first :: second :: rest = lines
      have hopen := hindent.append (harmless_opening (c := '\n') (by decide) (by decide))
      have hbody : Harmless (lines.flatMap fun line => (bodyLine depth line).toList) :=
        Harmless.flatMap fun line _ => harmless_bodyLine depth line
      have hblank : Harmless [' '] := harmless_of_not_mem (by decide)
      have hfront := (hopen.append hbody).append (hindent.append hblank)
      refine ⟨_, hfront.lacksClosing, ?_⟩
      simp [String.toList_append, List.flatMap_map]

/-!
# Documentation is one block
-/

theorem isBlock_ofLines (depth : Nat) {lines : List String} (h : lines ≠ [])
    (hlines : ∀ line ∈ lines, '\n' ∉ line.toList) :
    IsBlock depth lines (ofLines depth lines) := by
  rcases exists_front depth h with ⟨front, hfront, hblock⟩
  constructor
  · match lines with
    | [line] => simp [ofLines, String.toList_append]
    | first :: second :: rest =>
        rw [ofLines_of_two_le depth (by simp)]
        simp [String.toList_append]
  · rw [hblock]
    exact List.suffix_append front _
  · intro before after hsplit
    rw [← String.toList_inj, hblock, String.toList_append, String.toList_append,
      List.append_assoc] at hsplit
    exact String.toList_inj.mp (eq_of_closing hfront hsplit)
  · refine ⟨lines.map escape, ?_, ?_⟩
    · rw [List.forall₂_map_right_iff]
      exact List.forall₂_same.mpr fun line _ => breaks_iff.mpr rfl
    · rw [toList_ofLines h]
      apply splitOn_flatMap
      apply not_mem_blockRows
      intro written hwritten
      rcases List.mem_map.mp hwritten with ⟨line, hline, rfl⟩
      exact not_mem_escape (hlines line hline)

end CommentBlock

/-!
# Writing to the end of a source text

Documentation is written one line after the other.  What was written before stays, and what
comes after it is the block.
-/

/-- A source text after documentation has been written at its end. -/
def document (source text : String) (depth : Nat) : String :=
  match lines text with
  | [] => source
  | [line] => source ++ (indent depth ++ "/** " ++ CommentBlock.escape line ++ " */\n")
  | lines =>
      lines.foldl (fun written line => written ++ CommentBlock.bodyLine depth line)
        (source ++ (indent depth ++ "/**\n")) ++ (indent depth ++ " */\n")

theorem foldl_append_eq {α : Type} (f : α → String) (source : String) (items : List α) :
    items.foldl (fun written item => written ++ f item) source =
      source ++ String.join (items.map f) := by
  induction items generalizing source with
  | nil => rw [List.foldl_nil, List.map_nil, String.join_nil, String.append_empty]
  | cons item items ih =>
      rw [List.foldl_cons, ih, List.map_cons, String.join_cons, String.append_assoc]

theorem document_eq (source text : String) (depth : Nat) :
    document source text depth = source ++ commentBlock text depth := by
  unfold document commentBlock
  match lines text with
  | [] => exact String.append_empty.symm
  | [line] => rfl
  | first :: second :: rest =>
      rw [CommentBlock.ofLines_of_two_le depth (by simp)]
      simp only [foldl_append_eq, String.append_assoc]

theorem text_documentation (blocks : List Block) (text : String) (depth : Nat) :
    Source.text (blocks ++ [.documentation text depth]) =
      Source.text blocks ++ commentBlock text depth := by
  simp [Source.text, Block.layout]

/-!
# The lines of documentation
-/

/-- A text has these lines: each ends with a line feed or with a carriage return before one. -/
inductive HasLines : List Char → List (List Char) → Prop where
  | none : HasLines [] []
  | last {line : List Char} (hne : line ≠ []) (hfeed : '\n' ∉ line) : HasLines line [line]
  | feed {line text : List Char} {lines : List (List Char)} (hfeed : '\n' ∉ line)
      (hreturn : line.getLast? ≠ some '\r') (htext : HasLines text lines) :
      HasLines (line ++ '\n' :: text) (line :: lines)
  | returnFeed {line text : List Char} {lines : List (List Char)} (hfeed : '\n' ∉ line)
      (htext : HasLines text lines) :
      HasLines (line ++ '\r' :: '\n' :: text) (line :: lines)

/-- A character that does not end a line belongs to the first one. -/
theorem HasLines.cons {c : Char} {text line : List Char} {lines : List (List Char)}
    (h : HasLines text (line :: lines)) (hfeed : c ≠ '\n')
    (hreturn : ∀ rest, c = '\r' → text ≠ '\n' :: rest) :
    HasLines (c :: text) ((c :: line) :: lines) := by
  have hfirst : ∀ {line : List Char}, '\n' ∉ line → '\n' ∉ c :: line := by
    intro line hline
    rw [List.mem_cons, not_or]
    exact ⟨hfeed.symm, hline⟩
  cases h with
  | last hne hline => exact .last (List.cons_ne_nil c _) (hfirst hline)
  | feed hline hlast htext =>
      refine .feed (hfirst hline) ?_ htext
      cases line with
      | nil =>
          intro hc
          exact hreturn _ (Option.some.inj hc) rfl
      | cons d line => rwa [List.getLast?_cons_cons]
  | returnFeed hline htext => exact .returnFeed (hfirst hline) htext

theorem splitLines_eq_nil_iff {text : List Char} : splitLines text = [] ↔ text = [] := by
  fun_cases splitLines text <;> simp_all

theorem hasLines_splitLines (text : List Char) : HasLines text (splitLines text) := by
  fun_induction splitLines text with
  | case1 => exact .none
  | case2 rest ih => exact .feed List.not_mem_nil (by simp) ih
  | case3 rest ih => exact .returnFeed List.not_mem_nil ih
  | case4 c rest hfeed hreturn hnil ih =>
      rw [splitLines_eq_nil_iff.mp hnil]
      exact .last (List.cons_ne_nil c []) (by simpa using Ne.symm hfeed)
  | case5 c rest hfeed hreturn line lines hlines ih =>
      rw [hlines] at ih
      exact ih.cons hfeed hreturn

theorem lines_eq_nil_iff {text : String} : lines text = [] ↔ text = "" := by
  rw [lines, List.map_eq_nil_iff, splitLines_eq_nil_iff, String.toList_eq_nil_iff]

theorem map_toList_lines (text : String) :
    (lines text).map String.toList = splitLines text.toList := by
  rw [lines, List.map_map]
  simp

theorem not_mem_of_mem_lines {text line : String} (h : line ∈ lines text) :
    '\n' ∉ line.toList := by
  have hline : line.toList ∈ (lines text).map String.toList := List.mem_map_of_mem h
  rw [map_toList_lines] at hline
  exact not_mem_of_mem_splitLines hline

/--
Documentation is one block comment that is written after what is there already, or nothing
if it is empty.

The block starts with its indentation and the opening marks and is closed at its end, and
nowhere else.  It has the lines of the documentation on a line each, in order, or on the line
of its marks if there is only one of them.  Each is kept but for its closing marks, which are
broken up.
-/
theorem documentation_is_one_block (text : String) (depth : Nat) :
    (∀ source, document source text depth = source ++ commentBlock text depth) ∧
    (∀ blocks, Source.text (blocks ++ [.documentation text depth]) =
      Source.text blocks ++ commentBlock text depth) ∧
    (text = "" → commentBlock text depth = "") ∧
    (text ≠ "" → HasLines text.toList ((lines text).map String.toList) ∧
      IsBlock depth (lines text) (commentBlock text depth)) := by
  refine ⟨fun source => document_eq source text depth,
    fun blocks => text_documentation blocks text depth, ?_, ?_⟩
  · rintro rfl
    rfl
  · intro htext
    constructor
    · rw [map_toList_lines]
      exact hasLines_splitLines text.toList
    · exact CommentBlock.isBlock_ofLines depth (mt lines_eq_nil_iff.mp htext)
        fun line hline => not_mem_of_mem_lines hline

/-- Documentation with closing marks, halves of them at the ends of lines, and an empty line. -/
def hostileNote : String :=
  "/ opens **// closes *\r\n\n/*/"

theorem hostileNote_is_one_block :
    hostileNote ≠ "" ∧ lines hostileNote = ["/ opens **// closes *", "", "/*/"] ∧
      commentBlock hostileNote 1 =
        "    /**\n     * / opens **\\// closes *\n     *\n     * /*\\/\n     */\n" ∧
      IsBlock 1 (lines hostileNote) (commentBlock hostileNote 1) ∧
      ∀ before after, commentBlock hostileNote 1 = before ++ "*/" ++ after → after = "\n" := by
  have hne : hostileNote ≠ "" := by
    decide
  have hlines : lines hostileNote = ["/ opens **// closes *", "", "/*/"] := by
    decide
  have hprinted : commentBlock hostileNote 1 =
      "    /**\n     * / opens **\\// closes *\n     *\n     * /*\\/\n     */\n" := by
    decide
  have hblock := ((documentation_is_one_block hostileNote 1).2.2.2 hne).2
  exact ⟨hne, hlines, hprinted, hblock, hblock.closesOnce⟩

end Text
end VocabTypes
