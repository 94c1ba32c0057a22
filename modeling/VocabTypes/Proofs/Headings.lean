import VocabTypes.Declaration.Source
import VocabTypes.Proofs.Literals
import VocabTypes.Proofs.PrintedTokens
import VocabTypes.Proofs.Uncommented

/-!
# Headings

## The lines that announce declarations

A declaration is announced at the start of a line by `export` and its kind.  Every other
line of a printed file starts with a blank, a slash or a closing brace, or it is empty:
documentation starts with the marks of a comment, members and fields are indented, and
after a record that is laid out the line goes on from its closing brace.  No literal and no
line of documentation breaks a line.
-/

namespace VocabTypes
namespace Text

/-!
# Reading headings
-/

/-- White space in any script. -/
def isWhite (c : Char) : Bool :=
  (0x09 ≤ c.toNat && c.toNat ≤ 0x0d) || (0x2000 ≤ c.toNat && c.toNat ≤ 0x200a) ||
    [0x20, 0x85, 0xa0, 0x1680, 0x2028, 0x2029, 0x202f, 0x205f, 0x3000].contains c.toNat

def firstWord (text : List Char) : List Char :=
  (text.dropWhile isWhite).takeWhile fun c => !isWhite c

/-- A name that is not empty and has no white space in it. -/
def IsWord (name : String) : Prop :=
  name ≠ "" ∧ name.toList.any isWhite = false

instance (name : String) : Decidable (IsWord name) :=
  inferInstanceAs (Decidable (_ ∧ _))

theorem IsWord.not_isWhite {name : String} (h : IsWord name) {c : Char} (hc : c ∈ name.toList) :
    isWhite c = false :=
  Bool.eq_false_iff.mpr (List.any_eq_false.mp h.2 c hc)

theorem IsWord.not_mem {name : String} (h : IsWord name) : '\n' ∉ name.toList := by
  intro hmem
  exact absurd (h.not_isWhite hmem) (by decide)

/-- What a line announces: an enumeration or a named type, and its name. -/
structure Heading where
  isEnumeration : Bool
  name : String
deriving DecidableEq

/-- What a line announces, if it starts like a declaration. -/
def heading? (line : List Char) : Option Heading :=
  if "export enum ".toList.isPrefixOf line then
    some ⟨true, String.ofList (firstWord (line.drop "export enum ".toList.length))⟩
  else if "export type ".toList.isPrefixOf line then
    some ⟨false, String.ofList (firstWord (line.drop "export type ".toList.length))⟩
  else
    none

/-- The headings among the lines of a text, in order. -/
def headings (text : List Char) : List Heading :=
  (text.splitOn '\n').filterMap heading?

/-- The headings after the first line. -/
def laterHeadings (text : List Char) : List Heading :=
  (text.splitOn '\n').tail.filterMap heading?

/-!
# Lines
-/

theorem headings_newline (text : List Char) : headings ('\n' :: text) = headings text := by
  have hfirst : heading? [] = none := by decide
  rw [headings, List.splitOn_cons_eq_if_modifyHead, if_pos (by decide),
    List.filterMap_cons_none hfirst, headings]

theorem laterHeadings_newline (text : List Char) :
    laterHeadings ('\n' :: text) = headings text := by
  rw [laterHeadings, List.splitOn_cons_eq_if_modifyHead, if_pos (by decide), List.tail_cons,
    headings]

/-- What has no line end in it stands on the first line. -/
theorem splitOn_append {front : List Char} (h : '\n' ∉ front) (text : List Char) :
    ∃ line, (front ++ text).splitOn '\n' = (front ++ line) :: (text.splitOn '\n').tail := by
  induction front with
  | nil =>
      rcases List.exists_cons_of_ne_nil (List.splitOn_ne_nil '\n' text) with ⟨line, lines, hsplit⟩
      exact ⟨line, by rw [List.nil_append, List.nil_append, hsplit, List.tail_cons]⟩
  | cons c front ih =>
      rw [List.mem_cons, not_or] at h
      rcases ih h.2 with ⟨line, hsplit⟩
      have hne : ¬ (c == '\n') = true := by
        simpa using Ne.symm h.1
      refine ⟨line, ?_⟩
      rw [List.cons_append, List.splitOn_cons_eq_if_modifyHead, if_neg hne, hsplit]
      rfl

theorem laterHeadings_append {front : List Char} (h : '\n' ∉ front) (text : List Char) :
    laterHeadings (front ++ text) = laterHeadings text := by
  rcases splitOn_append h text with ⟨line, hsplit⟩
  rw [laterHeadings, hsplit, List.tail_cons, laterHeadings]

/-- How a line starts decides whether it is a heading and which. -/
theorem headings_append {front : List Char} (h : '\n' ∉ front) {found : Option Heading}
    (hfound : ∀ line, heading? (front ++ line) = found) (text : List Char) :
    headings (front ++ text) = found.toList ++ laterHeadings text := by
  rcases splitOn_append h text with ⟨line, hsplit⟩
  rw [headings, hsplit, laterHeadings]
  cases found with
  | none =>
      rw [List.filterMap_cons_none (hfound line)]
      rfl
  | some heading =>
      rw [List.filterMap_cons_some (hfound line)]
      rfl

/-- A character with which neither a heading nor a line end starts. -/
def isPlainStart (c : Char) : Bool :=
  c != 'e' && c != '\n'

theorem heading?_cons {c : Char} (h : isPlainStart c = true) (line : List Char) :
    heading? (c :: line) = none := by
  have hletter : 'e' ≠ c := (bne_iff_ne.mp (Bool.and_eq_true_iff.mp h).1).symm
  have hprefix : ∀ keyword : List Char, ('e' :: keyword).isPrefixOf (c :: line) = false := by
    intro keyword
    rw [List.isPrefixOf_cons_cons, beq_eq_false_iff_ne.mpr hletter, Bool.false_and]
  have henum := hprefix "xport enum ".toList
  have htype := hprefix "xport type ".toList
  rw [heading?]
  simp_all

theorem not_mem_of_isPlainStart {c : Char} (h : isPlainStart c = true) : '\n' ∉ [c] := by
  rw [List.mem_singleton]
  exact (bne_iff_ne.mp (Bool.and_eq_true_iff.mp h).2).symm

theorem headings_cons {c : Char} (h : isPlainStart c = true) (text : List Char) :
    headings (c :: text) = laterHeadings text :=
  headings_append (not_mem_of_isPlainStart h) (heading?_cons h) text

theorem not_mem_indent (depth : Nat) : '\n' ∉ (indent depth).toList := by
  rw [indent, String.toList_ofList]
  intro hmem
  cases List.eq_of_mem_replicate hmem

/-- A line at any depth. -/
theorem headings_indented (depth : Nat) {c : Char} (h : isPlainStart c = true)
    (text : List Char) : headings ((indent depth).toList ++ c :: text) = laterHeadings text := by
  have hblanks := not_mem_indent depth
  rw [indent, String.toList_ofList] at hblanks ⊢
  cases hwidth : 4 * depth with
  | zero => exact headings_cons h text
  | succ width =>
      rw [hwidth, List.replicate_succ, List.mem_cons, not_or] at hblanks
      have hfront : '\n' ∉ List.replicate width ' ' ++ [c] := by
        rw [List.mem_append, not_or]
        exact ⟨hblanks.2, not_mem_of_isPlainStart h⟩
      rw [List.replicate_succ, List.cons_append, headings_cons rfl,
        ← List.singleton_append, ← List.append_assoc, laterHeadings_append hfront]

theorem firstWord_append {name : String} (h : IsWord name) (line : List Char) :
    firstWord (name.toList ++ ' ' :: line) = name.toList := by
  have hstart : (name.toList ++ ' ' :: line).dropWhile isWhite = name.toList ++ ' ' :: line := by
    cases hletters : name.toList with
    | nil => exact absurd (String.toList_eq_nil_iff.mp hletters) h.1
    | cons c letters =>
        have hc : isWhite c = false := h.not_isWhite (by rw [hletters]; exact List.mem_cons_self)
        rw [List.cons_append, List.dropWhile_cons_of_neg (by simp [hc])]
  have hword : ∀ c ∈ name.toList, (!isWhite c) = true := by
    intro c hc
    rw [h.not_isWhite hc]
    rfl
  rw [firstWord, hstart, List.takeWhile_append_of_pos hword,
    List.takeWhile_cons_of_neg (by decide), List.append_nil]

theorem heading?_enumeration {name : String} (h : IsWord name) (line : List Char) :
    heading? ("export enum ".toList ++ (name.toList ++ ' ' :: line)) = some ⟨true, name⟩ := by
  rw [heading?, if_pos (by simp), List.drop_left, firstWord_append h, String.ofList_toList]

theorem heading?_typeAlias {name : String} (h : IsWord name) (line : List Char) :
    heading? ("export type ".toList ++ (name.toList ++ ' ' :: line)) = some ⟨false, name⟩ := by
  rw [heading?, if_neg (by simp), if_pos (by simp), List.drop_left, firstWord_append h,
    String.ofList_toList]

/-- What holds of no text, and of two texts in a row if it holds of each. -/
theorem forall_flatMap {α : Type} {p : List Char → Prop} (nil : p [])
    (append : ∀ {text more : List Char}, p text → p more → p (text ++ more))
    {text : α → List Char} {items : List α} (h : ∀ item ∈ items, p (text item)) :
    p (items.flatMap text) := by
  induction items with
  | nil => exact nil
  | cons item items ih =>
      rcases List.forall_mem_cons.mp h with ⟨hitem, hitems⟩
      rw [List.flatMap_cons]
      exact append hitem (ih hitems)

/-!
# Texts without headings

A text inside a line may run over line ends as long as no line that starts in it is a
heading.  Whole lines without a heading can be left out.
-/

/-- A text inside a line, after which the next headings are those of what follows it. -/
def Continues (text : List Char) : Prop :=
  ∀ rest, laterHeadings (text ++ rest) = laterHeadings rest

/-- Whole lines of which none is a heading. -/
def Silent (text : List Char) : Prop :=
  ∀ rest, headings (text ++ rest) = headings rest

theorem continues_of_not_mem {text : List Char} (h : '\n' ∉ text) : Continues text :=
  laterHeadings_append h

namespace Continues

variable {text more : List Char}

theorem append (h : Continues text) (hmore : Continues more) : Continues (text ++ more) := by
  intro rest
  rw [List.append_assoc, h, hmore]

theorem intercalate {α : Type} {text : α → List Char} {items : List α}
    (h : ∀ item ∈ items, Continues (text item)) {sep : List Char} (hsep : Continues sep) :
    Continues (sep.intercalate (items.map text)) := by
  cases items with
  | nil => exact fun _ => rfl
  | cons item items =>
      rcases List.forall_mem_cons.mp h with ⟨hitem, hitems⟩
      rw [intercalate_cons_eq_append_flatMap]
      exact hitem.append (forall_flatMap (fun _ => rfl) append fun other hother =>
        hsep.append (hitems other hother))

end Continues

namespace Silent

variable {text more : List Char}

theorem nil : Silent [] :=
  fun _ => rfl

theorem append (h : Silent text) (hmore : Silent more) : Silent (text ++ more) := by
  intro rest
  rw [List.append_assoc, h, hmore]

theorem flatMap {α : Type} {text : α → List Char} {items : List α}
    (h : ∀ item ∈ items, Silent (text item)) : Silent (items.flatMap text) :=
  forall_flatMap nil append h

end Silent

theorem silent_indented (depth : Nat) {c : Char} (hstart : isPlainStart c = true)
    {text : List Char} (h : Continues text) :
    Silent ((indent depth).toList ++ c :: (text ++ ['\n'])) := by
  intro rest
  have hsplit : (indent depth).toList ++ c :: (text ++ ['\n']) ++ rest =
      (indent depth).toList ++ c :: (text ++ '\n' :: rest) := by
    simp
  rw [hsplit, headings_indented depth hstart, h, laterHeadings_newline]

/-!
# Documentation
-/

theorem not_mem_of_mem_splitLines {text line : List Char} (h : line ∈ splitLines text) :
    '\n' ∉ line := by
  fun_induction splitLines text generalizing line with
  | case1 => cases h
  | case2 rest ih =>
      rcases List.mem_cons.mp h with rfl | hrest
      · exact List.not_mem_nil
      · exact ih hrest
  | case3 rest ih =>
      rcases List.mem_cons.mp h with rfl | hrest
      · exact List.not_mem_nil
      · exact ih hrest
  | case4 c rest hfeed hreturn hnil ih =>
      rw [List.mem_singleton.mp h, List.mem_singleton]
      exact fun hsame => hfeed hsame.symm
  | case5 c rest hfeed hreturn first lines hlines ih =>
      rw [hlines] at ih
      rcases List.mem_cons.mp h with rfl | hline
      · rw [List.mem_cons, not_or]
        exact ⟨fun hsame => hfeed hsame.symm, ih List.mem_cons_self⟩
      · exact ih (List.mem_cons_of_mem first hline)

theorem not_mem_escape {line : String} (h : '\n' ∉ line.toList) :
    '\n' ∉ (CommentBlock.escape line).toList := by
  rw [CommentBlock.escape, String.toList_ofList]
  generalize line.toList = letters at h
  fun_induction CommentBlock.escapeClose letters with
  | case1 => exact h
  | case2 rest ih => simp_all
  | case3 c rest hopen ih => simp_all

theorem silent_bodyLine (depth : Nat) {line : String} (h : '\n' ∉ line.toList) :
    Silent (CommentBlock.bodyLine depth line).toList := by
  unfold CommentBlock.bodyLine
  split
  · have hstar : Continues ['*'] := continues_of_not_mem (by decide)
    have hline := silent_indented depth (c := ' ') rfl hstar
    simpa [String.toList_append] using hline
  · have htext : Continues ("* ".toList ++ (CommentBlock.escape line).toList) :=
      (continues_of_not_mem (by decide)).append (continues_of_not_mem (not_mem_escape h))
    have hline := silent_indented depth (c := ' ') rfl htext
    simpa [String.toList_append] using hline

theorem silent_ofLines (depth : Nat) {lines : List String}
    (h : ∀ line ∈ lines, '\n' ∉ line.toList) :
    Silent (CommentBlock.ofLines depth lines).toList := by
  have hmarks : ∀ marks : List Char, '\n' ∉ marks →
      Silent ((indent depth).toList ++ '/' :: (marks ++ ['\n'])) :=
    fun marks hfeed =>
      silent_indented depth rfl (continues_of_not_mem hfeed)
  match lines with
  | [] => exact Silent.nil
  | [line] =>
      have hline : '\n' ∉ (CommentBlock.escape line).toList :=
        not_mem_escape (h line List.mem_cons_self)
      have hblock := hmarks ("** ".toList ++ (CommentBlock.escape line).toList ++ " */".toList)
        (by simp [hline])
      simpa [CommentBlock.ofLines, String.toList_append] using hblock
  | first :: second :: rest =>
      have hbody := Silent.flatMap fun line hline => silent_bodyLine depth (h line hline)
      have hend : Continues ['*', '/'] := continues_of_not_mem (by decide)
      have hclose := silent_indented depth (c := ' ') rfl hend
      have hblock := (hmarks ['*', '*'] (by decide)).append (hbody.append hclose)
      have hlines : CommentBlock.ofLines depth (first :: second :: rest) =
          indent depth ++ "/**\n" ++
            String.join ((first :: second :: rest).map (CommentBlock.bodyLine depth)) ++
              indent depth ++ " */\n" := rfl
      rw [hlines]
      simp only [String.toList_append, Uncommenting.toList_join_map]
      simpa using hblock

/-- No line of documentation is a heading, whatever its text. -/
theorem silent_commentBlock? (text : Option String) (depth : Nat) :
    Silent (commentBlock? text depth).toList := by
  cases text with
  | none => exact Silent.nil
  | some text =>
      apply silent_ofLines depth
      intro line hline
      rcases List.mem_map.mp hline with ⟨letters, hletters, rfl⟩
      rw [String.toList_ofList]
      exact not_mem_of_mem_splitLines hletters

/-!
# Literals
-/

theorem not_mem_quote (text : String) : '\n' ∉ (quote text).toList := by
  intro hmem
  rw [quote, String.toList_ofList, List.mem_cons, List.mem_append] at hmem
  rcases hmem with hopen | hbody | hclose
  · exact absurd hopen (by decide)
  · exact absurd (Quoted.isControl_eq_false_of_mem_encode hbody) (by decide)
  · exact absurd hclose (by decide)

theorem exists_toList_quote (text : String) : ∃ body, (quote text).toList = '"' :: body :=
  ⟨Quoted.encode text.toList ++ ['"'], by rw [quote, String.toList_ofList]⟩

end Text

open Text

/-!
# Types
-/

namespace TypeExpr

/-- A reference is to a name without a line feed. -/
def HasUnbrokenName : TypeExpr → Prop
  | reference name => '\n' ∉ name.toList
  | _ => True

instance : DecidablePred HasUnbrokenName
  | reference name => inferInstanceAs (Decidable ('\n' ∉ name.toList))
  | literal _ | union _ | intersection _ | parenthesized _ | record _ => isTrue trivial

theorem continues_parentheses {text : String} (h : Continues text.toList) :
    Continues ("(" ++ text ++ ")").toList := by
  have hopen : Continues "(".toList := continues_of_not_mem (by decide)
  have hclose : Continues ")".toList := continues_of_not_mem (by decide)
  rw [String.toList_append, String.toList_append]
  exact (hopen.append h).append hclose

theorem continues_grouped {arm : TypeExpr} {text : String} (h : Continues text.toList) :
    Continues (arm.grouped text).toList := by
  unfold grouped
  cases arm.isWideUnion with
  | true => exact continues_parentheses h
  | false => exact h

end TypeExpr

/-- A field is laid out on lines of its own, below its documentation. -/
theorem Field.silent_layout {field : Field} {depth : Nat}
    (h : Continues (field.type.layout depth).toList) : Silent (field.layout depth).toList := by
  cases field with
  | mk name optional type comment =>
      rcases exists_toList_quote name with ⟨body, hquote⟩
      have hbody : Continues body := by
        apply continues_of_not_mem
        intro hmem
        exact not_mem_quote name (by rw [hquote]; exact List.mem_cons_of_mem _ hmem)
      have hmark : Continues ((if optional then "?" else "") ++ ": ").toList := by
        cases optional with
        | true => exact continues_of_not_mem (by decide)
        | false => exact continues_of_not_mem (by decide)
      have hend : Continues ";".toList := continues_of_not_mem (by decide)
      have hline := silent_indented depth (c := '"') rfl
        (hbody.append (hmark.append (h.append hend)))
      have hlayout := (silent_commentBlock? comment depth).append hline
      simpa [layout, String.toList_append, hquote] using hlayout

/-- A type that is laid out announces nothing, over however many lines it goes. -/
theorem TypeExpr.continues_layout {type : TypeExpr} (h : type.Everywhere HasUnbrokenName)
    (depth : Nat) : Continues (type.layout depth).toList := by
  induction type generalizing depth with
  | reference name => exact continues_of_not_mem (everywhere_reference.mp h)
  | literal value => exact continues_of_not_mem (not_mem_quote value)
  | union arms ih =>
      have harms := (everywhere_union.mp h).2
      rw [layout, layoutArms_eq_map, String.toList_intercalate, List.map_map]
      exact Continues.intercalate (fun arm harm => ih arm harm (harms arm harm) depth)
        (continues_of_not_mem (by decide))
  | intersection arms ih =>
      have harms := (everywhere_intersection.mp h).2
      rw [layout, layoutFactors_eq_map, String.toList_intercalate, List.map_map]
      exact Continues.intercalate
        (fun arm harm => continues_grouped (ih arm harm (harms arm harm) depth))
        (continues_of_not_mem (by decide))
  | parenthesized inner ih =>
      rw [layout]
      exact continues_parentheses (ih (everywhere_parenthesized.mp h).2 depth)
  | record fields ih =>
      cases fields with
      | nil =>
          rw [layout]
          exact continues_of_not_mem (by decide)
      | cons field fields =>
          have hfields := (everywhere_record.mp h).2
          have hinside := Silent.flatMap fun field hfield =>
            Field.silent_layout (ih field hfield (hfields field hfield) (depth + 1))
          -- The line ends at the opening brace, and the closing one starts the line that goes on.
          intro rest
          have htext : ((record (field :: fields)).layout depth).toList ++ rest =
              ['{'] ++ '\n' :: ((field :: fields).flatMap
                (fun field => (field.layout (depth + 1)).toList) ++
                  ((indent depth).toList ++ '}' :: rest)) := by
            rw [layout]
            simp [String.toList_append, Field.toList_layoutAll]
          rw [htext, laterHeadings_append (by decide), laterHeadings_newline, hinside,
            headings_indented depth rfl]

/-!
# Declarations
-/

namespace Declaration

/-- What a declaration should be announced as. -/
def heading (d : Declaration) : Heading :=
  ⟨d.isEnumeration, d.name⟩

/-- The declared name is one word, and the other names printed without quotes have no line
feed in them. -/
def HasUnbrokenNames : Declaration → Prop
  | enumeration name _ members =>
      IsWord name ∧ ∀ member ∈ members, '\n' ∉ member.name.toList
  | typeAlias name _ type => IsWord name ∧ type.Everywhere TypeExpr.HasUnbrokenName

instance : DecidablePred HasUnbrokenNames
  | enumeration _ _ _ => inferInstanceAs (Decidable (_ ∧ _))
  | typeAlias _ _ _ => inferInstanceAs (Decidable (_ ∧ _))

end Declaration

theorem EnumMember.silent_layout {member : EnumMember} (h : '\n' ∉ member.name.toList) :
    Silent member.layout.toList := by
  intro rest
  have hline : '\n' ∉ "   ".toList ++ (member.name.toList ++ (" = ".toList ++
      ((quote member.value).toList ++ [',']))) := by
    simp [h, not_mem_quote]
  have hindent : (indent 1).toList = ' ' :: "   ".toList := by
    decide
  have htext : member.layout.toList ++ rest = (commentBlock? member.comment 1).toList ++
      ' ' :: (("   ".toList ++ (member.name.toList ++ (" = ".toList ++
        ((quote member.value).toList ++ [','])))) ++ '\n' :: rest) := by
    simp [layout, String.toList_append, hindent]
  rw [htext, silent_commentBlock? member.comment 1, headings_cons rfl,
    laterHeadings_append hline, laterHeadings_newline]

/-- The first line of a declaration announces it, and no other line announces anything. -/
theorem headings_announced {keyword : List Char} {name : String} {found : Heading}
    (hkeyword : '\n' ∉ keyword) (hname : IsWord name)
    (hfound : ∀ line, heading? (keyword ++ (name.toList ++ ' ' :: line)) = some found)
    {text : List Char} (h : Continues text) (rest : List Char) :
    headings (keyword ++ (name.toList ++ ' ' :: (text ++ '\n' :: rest))) =
      found :: headings rest := by
  have hfront : '\n' ∉ keyword ++ (name.toList ++ [' ']) := by
    simp [hkeyword, hname.not_mem]
  have hstart : ∀ line, heading? (keyword ++ (name.toList ++ [' ']) ++ line) = some found := by
    intro line
    simpa using hfound line
  have hsplit : keyword ++ (name.toList ++ ' ' :: (text ++ '\n' :: rest)) =
      keyword ++ (name.toList ++ [' ']) ++ (text ++ '\n' :: rest) := by
    simp
  rw [hsplit, headings_append hfront hstart, h, laterHeadings_newline]
  rfl

/-- A declaration announces itself and nothing else. -/
theorem Declaration.headings_layout {d : Declaration} (h : d.HasUnbrokenNames)
    (rest : List Char) : headings (d.layout.toList ++ rest) = d.heading :: headings rest := by
  cases d with
  | enumeration name comment members =>
      rcases h with ⟨hname, hmembers⟩
      have hbrace : Continues ['{'] := continues_of_not_mem (by decide)
      have hinside := Silent.flatMap fun member hmember =>
        EnumMember.silent_layout (hmembers member hmember)
      have hclose : Silent ['}', '\n'] := by
        intro rest
        rw [List.cons_append, headings_cons rfl]
        exact laterHeadings_newline rest
      have htext : (enumeration name comment members).layout.toList ++ rest =
          (commentBlock? comment 0).toList ++
            ("export enum ".toList ++ (name.toList ++ ' ' :: (['{'] ++ '\n' ::
              (members.flatMap (fun member => member.layout.toList) ++
                (['}', '\n'] ++ rest))))) := by
        simp [layout, String.toList_append, Uncommenting.toList_join_map, -String.toList_join]
      rw [htext, silent_commentBlock? comment 0,
        headings_announced (by decide) hname (heading?_enumeration hname) hbrace, hinside, hclose]
      rfl
  | typeAlias name comment type =>
      rcases h with ⟨hname, htype⟩
      have hequals : Continues "= ".toList := continues_of_not_mem (by decide)
      have hend : Continues [';'] := continues_of_not_mem (by decide)
      have hline := hequals.append ((TypeExpr.continues_layout htype 0).append hend)
      have htext : (typeAlias name comment type).layout.toList ++ rest =
          (commentBlock? comment 0).toList ++
            ("export type ".toList ++ (name.toList ++ ' ' ::
              (("= ".toList ++ ((type.layout 0).toList ++ [';'])) ++ '\n' :: rest))) := by
        simp [layout, String.toList_append]
      rw [htext, silent_commentBlock? comment 0,
        headings_announced (by decide) hname (heading?_typeAlias hname) hline]
      rfl

namespace Source

/-- The declarations of a file announce themselves, and the empty lines between them nothing. -/
theorem headings_declarations {declarations : List Declaration}
    (h : ∀ d ∈ declarations, d.HasUnbrokenNames) :
    headings (text ((declarations.map Block.declaration).intersperse .blank)).toList =
      declarations.map Declaration.heading := by
  induction declarations with
  | nil => decide
  | cons first rest ih =>
      rcases List.forall_mem_cons.mp h with ⟨hfirst, hrest⟩
      cases rest with
      | nil =>
          have hnothing : headings [] = [] := by
            decide
          have hlast := Declaration.headings_layout hfirst []
          rw [List.append_nil, hnothing] at hlast
          simpa [text, Block.layout] using hlast
      | cons second rest =>
          have htext : (text (((first :: second :: rest).map Block.declaration).intersperse
              .blank)).toList = first.layout.toList ++ '\n' ::
                (text (((second :: rest).map Block.declaration).intersperse .blank)).toList := by
            simp [text, Block.layout, String.toList_append]
          rw [htext, Declaration.headings_layout hfirst, headings_newline, ih hrest]
          rfl

/--
The lines of a printed file that start like a declaration are as many as the declarations:
each in its place announces the kind and the name of one of them.  No documentation, string,
field key or nested record makes another such line.
-/
theorem headings_render (declarations : List Declaration)
    (h : ∀ d ∈ declarations, d.HasUnbrokenNames) :
    headings (render declarations).toList = declarations.map Declaration.heading := by
  have hnotice : '\n' ∉ ("/ " ++ notice).toList := by
    decide
  have hheader : (Block.header notice).layout.toList =
      '/' :: (("/ " ++ notice).toList ++ ['\n', '\n']) := by
    decide
  have htext : (render declarations).toList = '/' :: (("/ " ++ notice).toList ++ '\n' :: '\n' ::
      (text ((declarations.map Block.declaration).intersperse .blank)).toList) := by
    rw [render, ofDeclarations, text, List.map_cons, String.join_cons, String.toList_append,
      hheader, List.cons_append, List.append_assoc]
    rfl
  rw [htext, headings_cons rfl, laterHeadings_append hnotice,
    laterHeadings_newline, headings_newline, headings_declarations h]

/-- Documentation, strings, keys and names that look like declarations. -/
def announcingDeclarations : List Declaration :=
  [.enumeration "ColorEnum" (some "Colors.\nexport type Color = string;\r\nexport enum Hue \x7b")
      [⟨"export type Red", "\nexport type Red = string;", some "export enum Red \x7b\n"⟩],
    .typeAlias "ColorBase" (some "\nexport type Color = string;")
      (.intersection
        [.record
          [{ name := "\nexport enum Key \x7b"
             optional := true
             type := .record [⟨"shade", false, .literal "\nexport type Shade = 1;", none⟩]
             comment := some "One.\nexport type Shade = string;" }],
          .reference "export type Base"])]

theorem headings_announcingDeclarations :
    (∀ d ∈ announcingDeclarations, d.HasUnbrokenNames) ∧
      headings (render announcingDeclarations).toList =
        [⟨true, "ColorEnum"⟩, ⟨false, "ColorBase"⟩] := by
  have hnames : ∀ d ∈ announcingDeclarations, d.HasUnbrokenNames := by
    decide
  exact ⟨hnames, headings_render announcingDeclarations hnames⟩

end Source
end VocabTypes
