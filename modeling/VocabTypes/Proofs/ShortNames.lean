import Mathlib.Data.List.Nodup
import VocabTypes.Proofs.NamespaceChoice
import VocabTypes.Shape

/-!
# Short names

## When different identifiers are written alike

An identifier is written in one of three manners: bare, after a label, or in full.  When
every label belongs to one namespace and holds no colon, a written name of any one manner
can be read back: the label ends at the first colon, the namespace is known from the label,
and its URL with the rest is the IRI.  So names can only meet across manners, and no two
of the names with labels meet.
-/

namespace VocabTypes

/-- The manners in which identifiers are written. -/
inductive Manner where
  | bare
  /-- After the label of a namespace and a colon. -/
  | labelled
  /-- As the whole IRI. -/
  | full
deriving DecidableEq

namespace Context

/-- The manner in which an IRI is written is decided by the namespace chosen for it. -/
def WritesIn (c : Context) (href : String) : Manner → Prop
  | .bare => ∃ ns, c.Chooses href ns ∧ ns.label = ""
  | .labelled => ∃ ns, c.Chooses href ns ∧ ns.label ≠ ""
  | .full => ∀ ns ∈ c.namespaces, ¬ ns.Covers href

theorem Chooses.writesIn_iff {c : Context} {href : String} {ns : Namespace}
    (h : c.Chooses href ns) {manner : Manner} :
    c.WritesIn href manner ↔ manner = if ns.label = "" then .bare else .labelled := by
  have hchosen : ∀ p : Namespace → Prop, (∃ other, c.Chooses href other ∧ p other) ↔ p ns := by
    intro p
    constructor
    · rintro ⟨other, hother, hp⟩
      rw [← h.unique hother]
      exact hp
    · intro hp
      exact ⟨ns, h, hp⟩
  cases manner with
  | bare =>
      rw [WritesIn, hchosen]
      split <;> simp_all
  | labelled =>
      rw [WritesIn, hchosen]
      split <;> simp_all
  | full =>
      constructor
      · intro huncovered
        exact absurd h.covers (huncovered ns h.mem)
      · intro hfull
        split at hfull <;> cases hfull

theorem writesIn_iff_of_uncovered {c : Context} {href : String}
    (h : ∀ ns ∈ c.namespaces, ¬ ns.Covers href) {manner : Manner} :
    c.WritesIn href manner ↔ manner = .full := by
  have hnone : ∀ p : Namespace → Prop, ¬ ∃ ns, c.Chooses href ns ∧ p ns := by
    rintro p ⟨ns, hns, _⟩
    exact h ns hns.mem hns.covers
  cases manner with
  | bare => simp [WritesIn, hnone]
  | labelled => simp [WritesIn, hnone]
  | full => simpa [WritesIn] using h

theorem existsUnique_writesIn (c : Context) (href : String) :
    ∃! manner, c.WritesIn href manner := by
  by_cases hcovered : ∃ ns ∈ c.namespaces, ns.Covers href
  · rcases exists_chooses hcovered with ⟨ns, hchooses⟩
    simp only [hchooses.writesIn_iff, existsUnique_eq]
  · have huncovered : ∀ ns ∈ c.namespaces, ¬ ns.Covers href :=
      fun ns hns hcovers => hcovered ⟨ns, hns, hcovers⟩
    simp only [writesIn_iff_of_uncovered huncovered, existsUnique_eq]

/-!
# Labels

A label without a colon ends where the first colon of the written name stands.
-/

/-- Labels tell namespaces apart and can be told from what follows them. -/
structure LabelsApart (c : Context) : Prop where
  distinct : (c.namespaces.map Namespace.label).Nodup
  colonless : ∀ ns ∈ c.namespaces, ':' ∉ ns.label.toList

instance (c : Context) : Decidable c.LabelsApart :=
  decidable_of_iff
    ((c.namespaces.map Namespace.label).Nodup ∧ ∀ ns ∈ c.namespaces, ':' ∉ ns.label.toList)
    ⟨fun h => ⟨h.1, h.2⟩, fun h => ⟨h.1, h.2⟩⟩

theorem append_colon_inj {label other term rest : List Char} (hlabel : ':' ∉ label)
    (hother : ':' ∉ other) (h : label ++ ':' :: term = other ++ ':' :: rest) :
    label = other ∧ term = rest := by
  induction label generalizing other with
  | nil =>
      cases other with
      | nil => exact ⟨rfl, (List.cons.inj h).2⟩
      | cons c other =>
          rw [(List.cons.inj h).1] at hother
          exact absurd List.mem_cons_self hother
  | cons c label ih =>
      cases other with
      | nil =>
          rw [(List.cons.inj h).1] at hlabel
          exact absurd List.mem_cons_self hlabel
      | cons d other =>
          rcases List.cons.inj h with ⟨hcd, htail⟩
          rcases ih (fun hmem => hlabel (List.mem_cons_of_mem c hmem))
            (fun hmem => hother (List.mem_cons_of_mem d hmem)) htail with ⟨hlabels, hterms⟩
          exact ⟨by rw [hcd, hlabels], hterms⟩

/-- A name is taken apart again into the label and the rest. -/
theorem qualify_inj {ns other : Namespace} {term rest : String} (hns : ns.label ≠ "")
    (hother : other.label ≠ "") (hcolon : ':' ∉ ns.label.toList)
    (hcolon' : ':' ∉ other.label.toList) (h : ns.qualify term = other.qualify rest) :
    ns.label = other.label ∧ term = rest := by
  have hletters : ns.label.toList ++ ':' :: term.toList =
      other.label.toList ++ ':' :: rest.toList := by
    rw [Namespace.qualify, if_neg hns, Namespace.qualify, if_neg hother] at h
    have hlist := congrArg String.toList h
    simpa [String.toList_append] using hlist
  rcases append_colon_inj hcolon hcolon' hletters with ⟨hlabels, hterms⟩
  exact ⟨String.toList_inj.mp hlabels, String.toList_inj.mp hterms⟩

namespace LabelsApart

variable {c : Context} {a b : Identifier}

/-- The label of a namespace and the rest of the IRI give the IRI back. -/
theorem href_eq (h : c.LabelsApart) {ns other : Namespace} {term rest : String}
    (hns : c.Chooses a.href ns) (hother : c.Chooses b.href other)
    (hlabel : ns.label = other.label) (hterm : ns.url ++ term = a.href)
    (hrest : other.url ++ rest = b.href) (hsame : term = rest) : a.href = b.href := by
  have hnamespace : ns = other := List.inj_on_of_nodup_map h.distinct hns.mem hother.mem hlabel
  rw [← hterm, ← hrest, hnamespace, hsame]

/-- Different identifiers written in one manner have different names. -/
theorem shorten_ne (h : c.LabelsApart) {manner : Manner} (hne : a.href ≠ b.href)
    (ha : c.WritesIn a.href manner) (hb : c.WritesIn b.href manner) :
    c.shorten a ≠ c.shorten b := by
  intro hname
  cases manner with
  | bare =>
      rcases ha with ⟨ns, hns, hlabel⟩
      rcases hb with ⟨other, hother, hempty⟩
      rcases hns.covers with ⟨term, _, hterm⟩
      rcases hother.covers with ⟨rest, _, hrest⟩
      rw [shorten_of_chooses hns hterm, shorten_of_chooses hother hrest, Namespace.qualify,
        if_pos hlabel, Namespace.qualify, if_pos hempty] at hname
      exact hne (h.href_eq hns hother (hlabel.trans hempty.symm) hterm hrest hname)
  | labelled =>
      rcases ha with ⟨ns, hns, hlabel⟩
      rcases hb with ⟨other, hother, hlabel'⟩
      rcases hns.covers with ⟨term, _, hterm⟩
      rcases hother.covers with ⟨rest, _, hrest⟩
      rw [shorten_of_chooses hns hterm, shorten_of_chooses hother hrest] at hname
      rcases qualify_inj hlabel hlabel' (h.colonless ns hns.mem)
        (h.colonless other hother.mem) hname with ⟨hlabels, hsame⟩
      exact hne (h.href_eq hns hother hlabels hterm hrest hsame)
  | full =>
      rw [shorten_of_uncovered ha, shorten_of_uncovered hb] at hname
      exact hne hname

end LabelsApart

end Context

/-!
# Tags and field keys
-/

theorem Registry.directShape_of_tagged {r : Registry} {e : Entity}
    (h : r.extendsBuiltin e = false) (o : Options) :
    r.directShape o e =
      .intersection
        [.record [.mustHave o.typeField (.literal (o.context.shorten e.subject))],
          .reference e.nameOfBase] := by
  rw [directShape, h, if_neg Bool.false_ne_true]
  rfl

/--
When labels tell namespaces apart and hold no colon, every IRI is written in one manner,
and two different identifiers have the same written name only if they are written in
different manners, one of them bare or in full.  In particular two bare names, two names
with labels or two names in full are different, and so are the tags of the classes and the
keys of the properties that are written by them.
-/
theorem Context.alike_only_across_manners {c : Context} (h : c.LabelsApart) :
    (∀ href, ∃! manner, c.WritesIn href manner) ∧
      (∀ (a b : Identifier) (m n : Manner), a.href ≠ b.href → c.shorten a = c.shorten b →
        c.WritesIn a.href m → c.WritesIn b.href n →
          m ≠ n ∧ (m = .bare ∨ m = .full ∨ n = .bare ∨ n = .full)) ∧
      (∀ (a b : Identifier) (manner : Manner), a.href ≠ b.href →
        c.WritesIn a.href manner → c.WritesIn b.href manner → c.shorten a ≠ c.shorten b) ∧
      (∀ (r : Registry) (o : Options) (e f : Entity) (manner : Manner), o.context = c →
        e.href ≠ f.href → c.WritesIn e.href manner → c.WritesIn f.href manner →
        r.extendsBuiltin e = false → r.extendsBuiltin f = false →
          ∃ tag other, tag ≠ other ∧
            r.directShape o e =
              .intersection
                [.record [.mustHave o.typeField (.literal tag)], .reference e.nameOfBase] ∧
            r.directShape o f =
              .intersection
                [.record [.mustHave o.typeField (.literal other)], .reference f.nameOfBase]) ∧
      ∀ (o : Options) (p q : Property) (manner : Manner), o.context = c →
        p.id.href ≠ q.id.href → c.WritesIn p.id.href manner → c.WritesIn q.id.href manner →
          (p.field o).name ≠ (q.field o).name := by
  refine ⟨c.existsUnique_writesIn, ?_, ?_, ?_, ?_⟩
  · intro a b m n hne hname hm hn
    have hmanners : m ≠ n := by
      rintro rfl
      exact h.shorten_ne hne hm hn hname
    refine ⟨hmanners, ?_⟩
    cases m with
    | bare => exact Or.inl rfl
    | full => exact Or.inr (Or.inl rfl)
    | labelled =>
        cases n with
        | bare => exact Or.inr (Or.inr (Or.inl rfl))
        | labelled => exact absurd rfl hmanners
        | full => exact Or.inr (Or.inr (Or.inr rfl))
  · intro a b manner hne ha hb
    exact h.shorten_ne hne ha hb
  · rintro r o e f manner rfl hne he hf htagged htagged'
    exact ⟨o.context.shorten e.subject, o.context.shorten f.subject, h.shorten_ne hne he hf,
      Registry.directShape_of_tagged htagged o, Registry.directShape_of_tagged htagged' o⟩
  · rintro o p q manner rfl hne hp hq
    exact h.shorten_ne hne hp hq

namespace Context

/-- A default namespace with one inside it, and one beside it. -/
def libraryNamespaces : Context :=
  { namespaces :=
      [⟨"", "https://schema.org/"⟩, ⟨"ext", "https://schema.org/ext/"⟩,
        ⟨"bib", "https://bib.schema.org/"⟩] }

/-- A bare name may look like a name with a label. -/
theorem alike_in_libraryNamespaces :
    libraryNamespaces.LabelsApart ∧
      (libraryNamespaces.shorten ⟨"Chapter", "https://schema.org/bib:Chapter"⟩ =
          libraryNamespaces.shorten ⟨"Chapter", "https://bib.schema.org/Chapter"⟩ ∧
        ∃ m n, libraryNamespaces.WritesIn "https://schema.org/bib:Chapter" m ∧
          libraryNamespaces.WritesIn "https://bib.schema.org/Chapter" n ∧ m ≠ n) ∧
      libraryNamespaces.WritesIn "https://schema.org/ext/Chapter" .labelled ∧
      libraryNamespaces.WritesIn "https://bib.schema.org/Chapter" .labelled ∧
      libraryNamespaces.shorten ⟨"Chapter", "https://schema.org/ext/Chapter"⟩ ≠
        libraryNamespaces.shorten ⟨"Chapter", "https://bib.schema.org/Chapter"⟩ := by
  have hlabels : libraryNamespaces.LabelsApart := by
    decide
  have hext : libraryNamespaces.WritesIn "https://schema.org/ext/Chapter" .labelled :=
    ⟨⟨"ext", "https://schema.org/ext/"⟩, by decide, by decide⟩
  have hbib : libraryNamespaces.WritesIn "https://bib.schema.org/Chapter" .labelled :=
    ⟨⟨"bib", "https://bib.schema.org/"⟩, by decide, by decide⟩
  have halike : libraryNamespaces.shorten ⟨"Chapter", "https://schema.org/bib:Chapter"⟩ =
      libraryNamespaces.shorten ⟨"Chapter", "https://bib.schema.org/Chapter"⟩ := by
    decide
  rcases alike_only_across_manners hlabels with ⟨hmanner, hacross, hwithin, _, _⟩
  rcases (hmanner "https://schema.org/bib:Chapter").exists with ⟨m, hm⟩
  have hmn := hacross _ _ m .labelled (by decide) halike hm hbib
  exact ⟨hlabels, ⟨halike, m, .labelled, hm, hbib, hmn.1⟩, hext, hbib,
    hwithin _ _ .labelled (by decide) hext hbib⟩

end Context
end VocabTypes
