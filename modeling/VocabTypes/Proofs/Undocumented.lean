import VocabTypes.Declaration.Source
import VocabTypes.Proofs.PrintedTokens
import VocabTypes.Proofs.Uncommented

/-!
# Undocumented declarations

## Documentation does not reach the code

Documentation may stand on declarations, on the members of enumerations and on the
fields of records, and it is arbitrary text.  The source text of declarations without
its comments is the source text of the same declarations without documentation.
-/

namespace VocabTypes

open Text Text.Uncommenting

/-!
# Removing documentation
-/

mutual

/-- A type without the documentation of its fields, at any depth. -/
def TypeExpr.undocumented : TypeExpr → TypeExpr
  | .reference name => .reference name
  | .literal value => .literal value
  | .union arms => .union (TypeExpr.allUndocumented arms)
  | .intersection arms => .intersection (TypeExpr.allUndocumented arms)
  | .parenthesized inner => .parenthesized inner.undocumented
  | .record fields => .record (Field.allUndocumented fields)

def TypeExpr.allUndocumented : List TypeExpr → List TypeExpr
  | [] => []
  | type :: types => type.undocumented :: TypeExpr.allUndocumented types

def Field.undocumented : Field → Field
  | ⟨name, optional, type, _⟩ => ⟨name, optional, type.undocumented, none⟩

def Field.allUndocumented : List Field → List Field
  | [] => []
  | field :: fields => field.undocumented :: Field.allUndocumented fields

end

def EnumMember.undocumented (member : EnumMember) : EnumMember :=
  { member with comment := none }

/-- A declaration without documentation on it or on anything in it. -/
def Declaration.undocumented : Declaration → Declaration
  | enumeration name _ members => .enumeration name none (members.map EnumMember.undocumented)
  | typeAlias name _ type => .typeAlias name none type.undocumented

theorem TypeExpr.allUndocumented_eq_map (types : List TypeExpr) :
    TypeExpr.allUndocumented types = types.map TypeExpr.undocumented := by
  induction types with
  | nil => rfl
  | cons type types ih => rw [TypeExpr.allUndocumented, ih, List.map_cons]

theorem Field.allUndocumented_eq_map (fields : List Field) :
    Field.allUndocumented fields = fields.map Field.undocumented := by
  induction fields with
  | nil => rfl
  | cons field fields ih => rw [Field.allUndocumented, ih, List.map_cons]

theorem Field.type_undocumented (field : Field) :
    field.undocumented.type = field.type.undocumented := by
  cases field with
  | mk name optional type comment => rw [undocumented]

theorem TypeExpr.isWideUnion_undocumented (type : TypeExpr) :
    type.undocumented.isWideUnion = type.isWideUnion := by
  cases type with
  | union arms =>
      rw [undocumented, allUndocumented_eq_map]
      match arms with
      | [] => rfl
      | [_] => rfl
      | _ :: _ :: _ => rfl
  | _ => rfl

/-!
# Plain names

Names are not documentation, so they stay.
-/

namespace Declaration

/-- The names that are printed without quotes are plain. -/
def HasPlainNames : Declaration → Prop
  | enumeration name _ members =>
      IsPlainName name ∧ ∀ member ∈ members, IsPlainName member.name
  | typeAlias name _ type => IsPlainName name ∧ type.Everywhere TypeExpr.IsPlain

instance : DecidablePred HasPlainNames
  | enumeration _ _ _ => inferInstanceAs (Decidable (_ ∧ _))
  | typeAlias _ _ _ => inferInstanceAs (Decidable (_ ∧ _))

end Declaration

theorem TypeExpr.everywhere_isPlain_undocumented {type : TypeExpr} :
    type.undocumented.Everywhere IsPlain ↔ type.Everywhere IsPlain := by
  induction type with
  | reference name => rw [undocumented]
  | literal value => rw [undocumented]
  | union arms ih =>
      rw [undocumented, allUndocumented_eq_map, everywhere_union, everywhere_union,
        List.forall_mem_map]
      exact and_congr Iff.rfl (forall₂_congr ih)
  | intersection arms ih =>
      rw [undocumented, allUndocumented_eq_map, everywhere_intersection,
        everywhere_intersection, List.forall_mem_map]
      exact and_congr Iff.rfl (forall₂_congr ih)
  | parenthesized inner ih =>
      rw [undocumented, everywhere_parenthesized, everywhere_parenthesized, ih]
      rfl
  | record fields ih =>
      rw [undocumented, Field.allUndocumented_eq_map, everywhere_record, everywhere_record,
        List.forall_mem_map]
      refine and_congr Iff.rfl (forall₂_congr ?_)
      intro field hfield
      rw [Field.type_undocumented]
      exact ih field hfield

theorem Declaration.hasPlainNames_undocumented {d : Declaration} :
    d.undocumented.HasPlainNames ↔ d.HasPlainNames := by
  cases d with
  | enumeration name comment members =>
      rw [undocumented, HasPlainNames, HasPlainNames, List.forall_mem_map]
      rfl
  | typeAlias name comment type =>
      rw [undocumented, HasPlainNames, HasPlainNames, TypeExpr.everywhere_isPlain_undocumented]

theorem leaves_name {name : String} (h : IsPlainName name) : Leaves name.toList name.toList := by
  apply leaves_inert
  rw [List.all_eq_true]
  intro c hc
  have hname : isNameChar c = true := List.all_eq_true.mp h.2 c hc
  rw [isInert, Bool.and_eq_true, bne_iff_ne, bne_iff_ne]
  constructor
  · rintro rfl
    exact absurd hname (by decide)
  · rintro rfl
    exact absurd hname (by decide)

/-!
# Types
-/

theorem leaves_intercalate {α : Type} {text code : α → List Char} {sep : List Char}
    (hsep : Leaves sep sep) {items : List α}
    (h : ∀ item ∈ items, Leaves (text item) (code item)) :
    Leaves (sep.intercalate (items.map text)) (sep.intercalate (items.map code)) := by
  cases items with
  | nil => exact Leaves.nil
  | cons item items =>
      rcases List.forall_mem_cons.mp h with ⟨hitem, hitems⟩
      rw [intercalate_cons_eq_append_flatMap, intercalate_cons_eq_append_flatMap]
      exact hitem.append (Leaves.flatMap fun other hother => hsep.append (hitems other hother))

theorem leaves_parentheses {text code : String} (h : Leaves text.toList code.toList) :
    Leaves ("(" ++ text ++ ")").toList ("(" ++ code ++ ")").toList := by
  have hopen : Leaves ['('] ['('] := leaves_inert (by decide)
  have hclose : Leaves [')'] [')'] := leaves_inert (by decide)
  rw [String.append_assoc, String.append_assoc, String.toList_append, String.toList_append,
    String.toList_append, String.toList_append]
  exact hopen.append (h.append hclose)

theorem TypeExpr.leaves_grouped {arm : TypeExpr} {text code : String}
    (h : Leaves text.toList code.toList) :
    Leaves (arm.grouped text).toList (arm.undocumented.grouped code).toList := by
  unfold grouped
  rw [isWideUnion_undocumented]
  cases arm.isWideUnion with
  | true => exact leaves_parentheses h
  | false => exact h

theorem leaves_indent (depth : Nat) : Leaves (indent depth).toList (indent depth).toList := by
  apply leaves_inert
  rw [indent, String.toList_ofList, List.all_replicate]
  simp [isInert]

/-- A field as it is laid out, below its documentation. -/
theorem Field.leavesLines_layout {field : Field} {depth : Nat}
    (h : Leaves (field.type.layout depth).toList (field.type.undocumented.layout depth).toList) :
    LeavesLines (field.layout depth).toList (field.undocumented.layout depth).toList := by
  cases field with
  | mk name optional type comment =>
      have hmark : Leaves ((if optional then "?" else "") ++ ": ").toList
          ((if optional then "?" else "") ++ ": ").toList := by
        cases optional with
        | true => exact leaves_inert (by decide)
        | false => exact leaves_inert (by decide)
      have hline := ((leaves_indent depth).append
        ((leaves_quote name).append (hmark.append h))).line ';' rfl
      have hlayout := (leavesLines_commentBlock? comment depth).append hline
      rw [List.nil_append] at hlayout
      simpa [layout, undocumented, commentBlock?, String.toList_append] using hlayout

/-- Reading a type as it is laid out keeps the type without documentation. -/
theorem TypeExpr.leaves_layout {type : TypeExpr} (h : type.Everywhere IsPlain) (depth : Nat) :
    Leaves (type.layout depth).toList (type.undocumented.layout depth).toList := by
  induction type generalizing depth with
  | reference name => exact leaves_name (everywhere_reference.mp h)
  | literal value => exact leaves_quote value
  | union arms ih =>
      have harms := (everywhere_union.mp h).2
      have hsep : Leaves " | ".toList " | ".toList := leaves_inert (by decide)
      rw [undocumented, layout, layout, layoutArms_eq_map, layoutArms_eq_map,
        allUndocumented_eq_map, String.toList_intercalate, String.toList_intercalate,
        List.map_map, List.map_map, List.map_map]
      exact leaves_intercalate hsep fun arm harm => ih arm harm (harms arm harm) depth
  | intersection arms ih =>
      have harms := (everywhere_intersection.mp h).2
      have hsep : Leaves " & ".toList " & ".toList := leaves_inert (by decide)
      rw [undocumented, layout, layout, layoutFactors_eq_map, layoutFactors_eq_map,
        allUndocumented_eq_map, String.toList_intercalate, String.toList_intercalate,
        List.map_map, List.map_map, List.map_map]
      exact leaves_intercalate hsep fun arm harm =>
        leaves_grouped (ih arm harm (harms arm harm) depth)
  | parenthesized inner ih =>
      rw [undocumented, layout, layout]
      exact leaves_parentheses (ih (everywhere_parenthesized.mp h).2 depth)
  | record fields ih =>
      have hfields := (everywhere_record.mp h).2
      cases fields with
      | nil =>
          rw [undocumented, Field.allUndocumented, layout]
          exact leaves_inert (by decide)
      | cons field fields =>
          have hopen : Leaves ['{', '\n'] ['{', '\n'] := leaves_inert (by decide)
          have hinside := LeavesLines.flatMap fun field hfield =>
            Field.leavesLines_layout (ih field hfield (hfields field hfield) (depth + 1))
          have hclose : Leaves ['}'] ['}'] := leaves_inert (by decide)
          have htext : ∀ (first : Field) (rest : List Field),
              ((record (first :: rest)).layout depth).toList =
                (['{', '\n'] ++ (first :: rest).flatMap fun field =>
                  (field.layout (depth + 1)).toList) ++ ((indent depth).toList ++ ['}']) := by
            intro first rest
            rw [layout]
            simp [String.toList_append, Field.toList_layoutAll]
          rw [undocumented, Field.allUndocumented_eq_map, List.map_cons, htext, htext,
            ← List.map_cons, List.flatMap_map]
          exact (hopen.append_lines rfl hinside).append ((leaves_indent depth).append hclose)

/-!
# Declarations
-/

theorem EnumMember.leavesLines_layout {member : EnumMember} (h : IsPlainName member.name) :
    LeavesLines member.layout.toList member.undocumented.layout.toList := by
  have hequals : Leaves [' ', '=', ' '] [' ', '=', ' '] := leaves_inert (by decide)
  have hline := ((leaves_indent 1).append ((leaves_name h).append
    (hequals.append (leaves_quote member.value)))).line ',' rfl
  have hlayout := (leavesLines_commentBlock? member.comment 1).append hline
  rw [List.nil_append] at hlayout
  simpa [layout, undocumented, commentBlock?, String.toList_append] using hlayout

theorem Declaration.leavesLines_layout {d : Declaration} (h : d.HasPlainNames) :
    LeavesLines d.layout.toList d.undocumented.layout.toList := by
  cases d with
  | enumeration name comment members =>
      rcases h with ⟨hname, hmembers⟩
      have hexport : Leaves "export enum ".toList "export enum ".toList := leaves_inert (by decide)
      have hblank : Leaves [' '] [' '] := leaves_inert (by decide)
      have hhead := (hexport.append ((leaves_name hname).append hblank)).line '{' rfl
      have hinside := LeavesLines.flatMap fun member hmember =>
        EnumMember.leavesLines_layout (hmembers member hmember)
      have hclose := Leaves.nil.line '}' rfl
      have hlayout := (leavesLines_commentBlock? comment 0).append
        (hhead.append (hinside.append hclose))
      rw [List.nil_append] at hlayout
      simpa [layout, undocumented, commentBlock?, String.toList_append, toList_join_map,
        ← List.map_map, List.flatMap_map] using hlayout
  | typeAlias name comment type =>
      rcases h with ⟨hname, htype⟩
      have hexport : Leaves "export type ".toList "export type ".toList := leaves_inert (by decide)
      have hequals : Leaves [' ', '=', ' '] [' ', '=', ' '] := leaves_inert (by decide)
      have hline := (hexport.append ((leaves_name hname).append
        (hequals.append (TypeExpr.leaves_layout htype 0)))).line ';' rfl
      have hlayout := (leavesLines_commentBlock? comment 0).append hline
      rw [List.nil_append] at hlayout
      simpa [layout, undocumented, commentBlock?, String.toList_append] using hlayout

namespace Source

/-- The declarations of a file as they are printed, with an empty line between them. -/
theorem leavesLines_declarations {declarations : List Declaration}
    (h : ∀ d ∈ declarations, d.HasPlainNames) :
    LeavesLines (text ((declarations.map Block.declaration).intersperse .blank)).toList
      (text (((declarations.map Declaration.undocumented).map Block.declaration).intersperse
        .blank)).toList := by
  have hend : Leaves ['\n'] ['\n'] := leaves_inert (by decide)
  have hblank : LeavesLines ['\n'] ['\n'] := hend.lines rfl
  induction declarations with
  | nil => exact LeavesLines.nil
  | cons first rest ih =>
      rcases List.forall_mem_cons.mp h with ⟨hfirst, hrest⟩
      have hlayout := Declaration.leavesLines_layout hfirst
      cases rest with
      | nil => simpa [text, Block.layout] using hlayout
      | cons second rest =>
          have happend := hlayout.append (hblank.append (ih hrest))
          simpa [text, Block.layout, String.toList_append] using happend

/--
Comments never change the code: without its comments, a printed file is the file that is
printed from the declarations without documentation.  Hence declarations that differ in
documentation only are printed with the same code.
-/
theorem uncommented_render (declarations : List Declaration)
    (h : ∀ d ∈ declarations, d.HasPlainNames) :
    uncommented (render declarations) = render (declarations.map Declaration.undocumented) ∧
      ∀ others : List Declaration,
        others.map Declaration.undocumented = declarations.map Declaration.undocumented →
          uncommented (render others) = uncommented (render declarations) := by
  have hall : ∀ ds : List Declaration, (∀ d ∈ ds, d.HasPlainNames) →
      uncommented (render ds) = render (ds.map Declaration.undocumented) := by
    intro ds hds
    have hheader : Leaves (Block.header notice).layout.toList
        (Block.header notice).layout.toList := leaves_inert (by decide)
    have hends : EndsLine (Block.header notice).layout.toList := by
      rw [EndsLine]
      decide
    have hfile := hheader.append_lines hends (leavesLines_declarations hds)
    have hsplit : ∀ ds : List Declaration, (render ds).toList =
        (Block.header notice).layout.toList ++
          (text ((ds.map Block.declaration).intersperse .blank)).toList := by
      intro ds
      rw [render, ofDeclarations, text, List.map_cons, String.join_cons, String.toList_append]
      rfl
    apply String.toList_inj.mp
    rw [uncommented, String.toList_ofList, hsplit, hfile, hsplit]
    rfl
  refine ⟨hall declarations h, ?_⟩
  intro others hothers
  have hplain : ∀ d ∈ others, d.HasPlainNames := by
    have hundocumented : ∀ d ∈ others.map Declaration.undocumented, d.HasPlainNames := by
      rw [hothers, List.forall_mem_map]
      exact fun d hd => Declaration.hasPlainNames_undocumented.mpr (h d hd)
    rw [List.forall_mem_map] at hundocumented
    exact fun d hd => Declaration.hasPlainNames_undocumented.mp (hundocumented d hd)
  rw [hall others hplain, hall declarations h, hothers]

/-- Documentation that looks like code, beside strings that look like documentation. -/
def hostileDocumentation : List Declaration :=
  [.enumeration "ColorEnum" (some "**/ export type Color = \"/** red */\";\n/")
      [⟨"Red", "/** https://example.org/Red */", some "\n*/\r\n*"⟩],
    .typeAlias "ColorBase" (some "")
      (.record
        [{ name := "*/ shade"
           optional := true
           type := .record [⟨"/**", false, .literal "\"/*", some "*/*/"⟩]
           comment := some "one \" quote\r" }])]

theorem uncommented_hostileDocumentation :
    (∀ d ∈ hostileDocumentation, d.HasPlainNames) ∧
      uncommented (render hostileDocumentation) =
        render (hostileDocumentation.map Declaration.undocumented) ∧
      uncommented (render (hostileDocumentation.map Declaration.undocumented)) =
        uncommented (render hostileDocumentation) ∧
      render (hostileDocumentation.map Declaration.undocumented) ≠
        render hostileDocumentation := by
  have hplain : ∀ d ∈ hostileDocumentation, d.HasPlainNames := by decide
  rcases uncommented_render hostileDocumentation hplain with ⟨hcode, hsame⟩
  exact ⟨hplain, hcode, hsame _ rfl, by decide⟩

end Source
end VocabTypes
