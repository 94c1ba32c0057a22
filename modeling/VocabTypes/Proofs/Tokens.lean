import VocabTypes.Json.Reader
import VocabTypes.Proofs.Decoding

/-!
# Tokens

## Taking the text of a type apart

The text of a type is made of quoted strings, names and marks, with blanks between
them.  It is scanned character by character: a name goes on as long as there are
characters of names, and a quoted string goes on to the first quote without a
backslash before it.
-/

namespace VocabTypes
namespace Text

inductive Token where
  /-- What stands between two quotes, its escapes included. -/
  | quoted (body : List Char)
  | name (letters : List Char)
  | mark (symbol : Char)
deriving DecidableEq

/-- The characters of names: letters, digits and underscores, in any script. -/
def isNameChar (c : Char) : Bool :=
  c.isAlphanum || c == '_' || 0x80 ≤ c.toNat

/-- A name that needs no quotes. -/
def IsPlainName (name : String) : Prop :=
  name ≠ "" ∧ name.toList.all isNameChar = true

instance (name : String) : Decidable (IsPlainName name) :=
  inferInstanceAs (Decidable (_ ∧ _))

/-!
# Scanning
-/

/-- Where scanning has got to. -/
inductive Place where
  | between
  | inName (letters : List Char)
  | inQuotes (body : List Char)
  /-- In a quoted string, after a backslash. -/
  | escaped (body : List Char)

/-- What a character is outside of names and strings: a token, or the start of one. -/
def opening (c : Char) : List Token × Place :=
  if c = '"' then ([], .inQuotes [])
  else if isNameChar c then ([], .inName [c])
  else if Json.isBlank c then ([], .between)
  else ([.mark c], .between)

/-- The tokens that are complete once a character has been seen, and the place after it. -/
def Place.advance : Place → Char → List Token × Place
  | .between, c => opening c
  | .inName letters, c =>
      if isNameChar c then ([], .inName (letters ++ [c]))
      else (.name letters :: (opening c).1, (opening c).2)
  | .inQuotes body, c =>
      if c = '"' then ([.quoted body], .between)
      else if c = '\\' then ([], .escaped (body ++ [c]))
      else ([], .inQuotes (body ++ [c]))
  | .escaped body, c => ([], .inQuotes (body ++ [c]))

/-- The tokens from a place on; none if the text ends inside a quoted string. -/
def scanFrom (place : Place) : List Char → Option (List Token)
  | [] =>
      match place with
      | .between => some []
      | .inName letters => some [.name letters]
      | .inQuotes _ => none
      | .escaped _ => none
  | c :: rest => (scanFrom (place.advance c).2 rest).map ((place.advance c).1 ++ ·)

def scan (text : List Char) : Option (List Token) :=
  scanFrom .between text

/-- The tokens of a text. -/
def tokens? (text : String) : Option (List Token) :=
  scan text.toList

/-- Leaves out each semicolon directly before a closing brace. -/
def dropClosing : List Token → List Token
  | [] => []
  | token :: rest =>
      if token = .mark ';' ∧ rest.head? = some (.mark '}') then dropClosing rest
      else token :: dropClosing rest

theorem scanFrom_cons {place next : Place} {c : Char} {done : List Token}
    (h : place.advance c = (done, next)) (rest : List Char) :
    scanFrom place (c :: rest) = (scanFrom next rest).map (done ++ ·) := by
  rw [scanFrom, h]

/-- A character with which no token ends. -/
theorem scanFrom_cons_nil {place next : Place} {c : Char} (h : place.advance c = ([], next))
    (rest : List Char) : scanFrom place (c :: rest) = scanFrom next rest := by
  rw [scanFrom_cons h]
  exact Option.map_id'

/-!
# Marks and blanks
-/

/-- The characters that are neither in names nor around strings. -/
def isBetween (c : Char) : Bool :=
  c != '"' && !isNameChar c

/-- The marks in a text that has nothing but marks and blanks. -/
def marks : List Char → List Token
  | [] => []
  | c :: rest => if Json.isBlank c then marks rest else .mark c :: marks rest

/-- What may stand between two names. -/
def IsSeparator (text : List Char) : Prop :=
  text ≠ [] ∧ text.all isBetween = true

instance (text : List Char) : Decidable (IsSeparator text) :=
  inferInstanceAs (Decidable (_ ∧ _))

theorem scan_marks {text : List Char} (h : text.all isBetween = true)
    (rest : List Char) : scan (text ++ rest) = (scan rest).map (marks text ++ ·) := by
  induction text with
  | nil => exact Option.map_id'.symm
  | cons c text ih =>
      rw [List.all_cons, Bool.and_eq_true] at h
      rcases h with ⟨hc, htext⟩
      rw [isBetween, Bool.and_eq_true, bne_iff_ne, Bool.not_eq_true'] at hc
      rw [marks]
      cases hblank : Json.isBlank c with
      | true =>
          have hadvance : Place.between.advance c = ([], .between) := by
            simp [Place.advance, opening, hc, hblank]
          exact (scanFrom_cons_nil hadvance _).trans (ih htext)
      | false =>
          have hadvance : Place.between.advance c = ([.mark c], .between) := by
            simp [Place.advance, opening, hc, hblank]
          have hmark : scan (c :: (text ++ rest)) =
              (scan (text ++ rest)).map ([.mark c] ++ ·) := scanFrom_cons hadvance _
          rw [List.cons_append, hmark, ih htext, Option.map_map]
          rfl

/-!
# Names
-/

/-- A text does not begin with a character that could still belong to a name. -/
def EndsName (rest : List Char) : Prop :=
  ∀ c ∈ rest.head?, isNameChar c = false

theorem scanFrom_inName_append {word : List Char} (h : word.all isNameChar = true)
    (letters rest : List Char) :
    scanFrom (.inName letters) (word ++ rest) = scanFrom (.inName (letters ++ word)) rest := by
  induction word generalizing letters with
  | nil => simp
  | cons c word ih =>
      rw [List.all_cons, Bool.and_eq_true] at h
      rcases h with ⟨hc, hword⟩
      have hadvance : (Place.inName letters).advance c = ([], .inName (letters ++ [c])) := by
        rw [Place.advance, if_pos hc]
      rw [List.cons_append, scanFrom_cons_nil hadvance, ih hword, List.append_assoc,
        List.singleton_append]

theorem scanFrom_inName_of_endsName {rest : List Char} (h : EndsName rest)
    (letters : List Char) :
    scanFrom (.inName letters) rest = (scan rest).map (.name letters :: ·) := by
  cases rest with
  | nil => rfl
  | cons c rest =>
      have hc : isNameChar c = false := h c rfl
      have hadvance : (Place.inName letters).advance c =
          (.name letters :: (opening c).1, (opening c).2) := by
        simp [Place.advance, hc]
      rw [scanFrom_cons hadvance, scan, scanFrom, Option.map_map]
      rfl

theorem scan_name {word : List Char} (hword : word ≠ [])
    (h : word.all isNameChar = true) {rest : List Char} (hrest : EndsName rest) :
    scan (word ++ rest) = (scan rest).map (.name word :: ·) := by
  cases word with
  | nil => exact absurd rfl hword
  | cons c word =>
      rw [List.all_cons, Bool.and_eq_true] at h
      rcases h with ⟨hc, htail⟩
      have hquote : c ≠ '"' := by
        rintro rfl
        exact absurd hc (by decide)
      have hopening : Place.between.advance c = ([], .inName [c]) := by
        rw [Place.advance, opening, if_neg hquote, if_pos hc]
      rw [scan, List.cons_append, scanFrom_cons_nil hopening, scanFrom_inName_append htail,
        List.singleton_append, scanFrom_inName_of_endsName hrest]

/-!
# Quoted strings
-/

theorem scanFrom_inQuotes_append {chars : List Char}
    (h : ∀ c ∈ chars, c ≠ '"' ∧ c ≠ '\\') (body rest : List Char) :
    scanFrom (.inQuotes body) (chars ++ rest) =
      scanFrom (.inQuotes (body ++ chars)) rest := by
  induction chars generalizing body with
  | nil => simp
  | cons c chars ih =>
      rcases List.forall_mem_cons.mp h with ⟨⟨hquote, hslash⟩, htail⟩
      have hadvance : (Place.inQuotes body).advance c = ([], .inQuotes (body ++ [c])) := by
        rw [Place.advance, if_neg hquote, if_neg hslash]
      rw [List.cons_append, scanFrom_cons_nil hadvance, ih htail, List.append_assoc,
        List.singleton_append]

theorem scanFrom_inQuotes_slash (body : List Char) (c : Char) (rest : List Char) :
    scanFrom (.inQuotes body) ('\\' :: c :: rest) =
      scanFrom (.inQuotes (body ++ ['\\', c])) rest := by
  have hslash : (Place.inQuotes body).advance '\\' = ([], .escaped (body ++ ['\\'])) := rfl
  have hescaped : (Place.escaped (body ++ ['\\'])).advance c =
      ([], .inQuotes (body ++ ['\\', c])) := by
    rw [Place.advance, List.append_assoc]
    rfl
  rw [scanFrom_cons_nil hslash, scanFrom_cons_nil hescaped]

theorem scanFrom_inQuotes_escape (c : Char) (body rest : List Char) :
    scanFrom (.inQuotes body) (Quoted.escape c ++ rest) =
      scanFrom (.inQuotes (body ++ Quoted.escape c)) rest := by
  have hwritten := Quoted.written_escape c
  generalize Quoted.escape c = written at hwritten ⊢
  cases hwritten with
  | letter letter hletter hcode => exact scanFrom_inQuotes_slash body letter rest
  | code =>
      have hdigits : ∀ d ∈ '{' :: (Nat.toDigits 16 c.toNat ++ ['}']), d ≠ '"' ∧ d ≠ '\\' := by
        intro d hd
        rcases List.mem_cons.mp hd with hopen | hd
        · simp [hopen]
        rcases List.mem_append.mp hd with hdigit | hclose
        · exact Quoted.ne_of_mem_toDigits hdigit
        · simp [List.mem_singleton.mp hclose]
      have hslash := scanFrom_inQuotes_slash body 'u'
        ('{' :: (Nat.toDigits 16 c.toNat ++ ['}']) ++ rest)
      have hbody := scanFrom_inQuotes_append hdigits (body ++ ['\\', 'u']) rest
      rw [List.append_assoc] at hbody
      exact hslash.trans hbody
  | plain hquote hslash hcontrol =>
      apply scanFrom_inQuotes_append
      intro d hd
      rw [List.mem_singleton.mp hd]
      exact ⟨hquote, hslash⟩

theorem scanFrom_inQuotes_encode (text body rest : List Char) :
    scanFrom (.inQuotes body) (Quoted.encode text ++ '"' :: rest) =
      (scan rest).map (.quoted (body ++ Quoted.encode text) :: ·) := by
  induction text generalizing body with
  | nil =>
      rw [Quoted.encode, List.flatMap_nil, List.nil_append, List.append_nil]
      exact scanFrom_cons rfl rest
  | cons c text ih =>
      have hencode : Quoted.encode (c :: text) = Quoted.escape c ++ Quoted.encode text :=
        List.flatMap_cons
      rw [hencode, List.append_assoc, scanFrom_inQuotes_escape, ih, List.append_assoc]

theorem scan_quote (text : String) (rest : List Char) :
    scan ((quote text).toList ++ rest) =
      (scan rest).map (.quoted (Quoted.encode text.toList) :: ·) := by
  have hopening : Place.between.advance '"' = ([], .inQuotes []) := rfl
  rw [quote, String.toList_ofList, List.cons_append, List.append_assoc,
    List.singleton_append, scan, scanFrom_cons_nil hopening, scanFrom_inQuotes_encode,
    List.nil_append]

/-!
# Texts that spell tokens

A text that ends in a name may be followed by anything that the name cannot go on with.
A text that ends in a mark or a quote may be followed by anything.
-/

def Spells (text : List Char) (tokens : List Token) : Prop :=
  ∀ rest, EndsName rest → scan (text ++ rest) = (scan rest).map (tokens ++ ·)

def SpellsAnywhere (text : List Char) (tokens : List Token) : Prop :=
  ∀ rest, scan (text ++ rest) = (scan rest).map (tokens ++ ·)

theorem map_append_map_append (first second : List Token) (tokens : Option (List Token)) :
    (tokens.map (second ++ ·)).map (first ++ ·) = tokens.map (first ++ second ++ ·) := by
  rw [Option.map_map]
  congr 1
  funext rest
  exact (List.append_assoc first second rest).symm

theorem spellsAnywhere_nil : SpellsAnywhere [] [] :=
  fun _ => Option.map_id'.symm

theorem spellsAnywhere_marks (text : List Char) (h : text.all isBetween = true) :
    SpellsAnywhere text (marks text) :=
  fun rest => scan_marks h rest

theorem spellsAnywhere_quote (text : String) :
    SpellsAnywhere (quote text).toList [.quoted (Quoted.encode text.toList)] :=
  fun rest => scan_quote text rest

theorem spells_name {name : String} (h : IsPlainName name) :
    Spells name.toList [.name name.toList] := by
  have hne : name.toList ≠ [] := by
    intro hnil
    exact h.1 (String.toList_eq_nil_iff.mp hnil)
  exact fun rest hrest => scan_name hne h.2 hrest

namespace SpellsAnywhere

variable {text more : List Char} {tokens moreTokens : List Token}

theorem spells (h : SpellsAnywhere text tokens) : Spells text tokens :=
  fun rest _ => h rest

theorem append (h : SpellsAnywhere text tokens) (hmore : SpellsAnywhere more moreTokens) :
    SpellsAnywhere (text ++ more) (tokens ++ moreTokens) := by
  intro rest
  rw [List.append_assoc, h, hmore, map_append_map_append]

theorem append_spells (h : SpellsAnywhere text tokens) (hmore : Spells more moreTokens) :
    Spells (text ++ more) (tokens ++ moreTokens) := by
  intro rest hrest
  rw [List.append_assoc, h, hmore rest hrest, map_append_map_append]

theorem flatMap {α : Type} {text : α → List Char} {tokens : α → List Token}
    {items : List α} (h : ∀ item ∈ items, SpellsAnywhere (text item) (tokens item)) :
    SpellsAnywhere (items.flatMap text) (items.flatMap tokens) := by
  induction items with
  | nil => exact spellsAnywhere_nil
  | cons item items ih =>
      rcases List.forall_mem_cons.mp h with ⟨hitem, hitems⟩
      rw [List.flatMap_cons, List.flatMap_cons]
      exact hitem.append (ih hitems)

end SpellsAnywhere

theorem intercalate_map_cons_cons {α β : Type} (f : α → List β) (sep : List β)
    (item second : α) (items : List α) :
    sep.intercalate ((item :: second :: items).map f) =
      f item ++ (sep ++ sep.intercalate ((second :: items).map f)) := by
  rw [List.map_cons, List.map_cons, List.intercalate_cons_cons, List.append_assoc]

namespace Spells

theorem tokens?_eq {text : String} {tokens : List Token} (h : Spells text.toList tokens) :
    tokens? text = some tokens := by
  have hscan := h [] (by simp [EndsName])
  rw [List.append_nil] at hscan
  rw [tokens?, hscan]
  show some (tokens ++ []) = some tokens
  rw [List.append_nil]

theorem append_marks {text : List Char} {tokens : List Token} (h : Spells text tokens)
    (sep : List Char) (hsep : IsSeparator sep) :
    SpellsAnywhere (text ++ sep) (tokens ++ marks sep) := by
  intro rest
  rcases hsep with ⟨hne, hsep⟩
  have hends : EndsName (sep ++ rest) := by
    cases sep with
    | nil => exact absurd rfl hne
    | cons c sep =>
        rw [List.all_cons, Bool.and_eq_true, isBetween, Bool.and_eq_true,
          Bool.not_eq_true'] at hsep
        intro d hd
        cases hd
        exact hsep.1.2
  rw [List.append_assoc, h _ hends, scan_marks hsep, map_append_map_append]

theorem intercalate {α : Type} {text : α → List Char} {tokens : α → List Token}
    {items : List α} (h : ∀ item ∈ items, Spells (text item) (tokens item))
    (sep : List Char) (hsep : IsSeparator sep) :
    Spells (sep.intercalate (items.map text))
      ((marks sep).intercalate (items.map tokens)) := by
  induction items with
  | nil => exact spellsAnywhere_nil.spells
  | cons item items ih =>
      rcases List.forall_mem_cons.mp h with ⟨hitem, hitems⟩
      cases items with
      | nil =>
          rw [List.map_singleton, List.map_singleton, List.intercalate_singleton,
            List.intercalate_singleton]
          exact hitem
      | cons second items =>
          rw [intercalate_map_cons_cons, intercalate_map_cons_cons, ← List.append_assoc,
            ← List.append_assoc]
          exact (hitem.append_marks sep hsep).append_spells (ih hitems)

end Spells

end Text
end VocabTypes
