import Mathlib.Data.List.Induction
import VocabTypes.Namespace

/-!
# The choice of a namespace

## Which namespace an identifier is written under

A namespace covers the IRIs that go on after its URL.  The URLs of the namespaces that
cover one IRI all begin it, so each of them begins every longer one, and URLs of the same
length are the same.  One URL is the longest, and of the namespaces with that URL the last
one registered is chosen.
-/

namespace VocabTypes

/-!
# Covering
-/

namespace Namespace

/-- The URL of a namespace begins an IRI, and there is more of the IRI after it. -/
def Covers (ns : Namespace) (href : String) : Prop :=
  ∃ term, term ≠ "" ∧ ns.url ++ term = href

theorem covers_iff {ns : Namespace} {href : String} :
    ns.Covers href ↔ ∃ term, ns.term? href = some term := by
  simp only [Covers, term?_eq_some_iff]

instance (ns : Namespace) (href : String) : Decidable (ns.Covers href) :=
  decidable_of_iff ((ns.term? href).isSome = true) (by rw [covers_iff, Option.isSome_iff_exists])

theorem term?_eq_none_iff {ns : Namespace} {href : String} :
    ns.term? href = none ↔ ¬ ns.Covers href := by
  rw [covers_iff, ← Option.isSome_iff_exists, Option.not_isSome_iff_eq_none]

theorem Covers.url_prefix {ns : Namespace} {href : String} (h : ns.Covers href) :
    ns.url.toList <+: href.toList := by
  rcases h with ⟨term, _, rfl⟩
  rw [String.toList_append]
  exact List.prefix_append _ _

section

variable {first second : Namespace} {href : String}

/-- Of two URLs that begin one IRI, the shorter one begins the other. -/
theorem Covers.exists_url_eq_append (hfirst : first.Covers href) (hsecond : second.Covers href)
    (h : first.url.length ≤ second.url.length) : ∃ rest, second.url = first.url ++ rest := by
  rcases List.prefix_of_prefix_length_le hfirst.url_prefix hsecond.url_prefix h with ⟨rest, hrest⟩
  refine ⟨String.ofList rest, ?_⟩
  apply String.toList_inj.mp
  rw [String.toList_append, String.toList_ofList, hrest]

/-- Counting characters and counting bytes give the URLs of one IRI the same order. -/
theorem Covers.utf8ByteSize_le (hfirst : first.Covers href) (hsecond : second.Covers href)
    (h : first.url.length ≤ second.url.length) :
    first.url.utf8ByteSize ≤ second.url.utf8ByteSize := by
  rcases hfirst.exists_url_eq_append hsecond h with ⟨rest, hrest⟩
  rw [hrest, String.utf8ByteSize_append]
  exact Nat.le_add_right _ _

theorem Covers.url_eq (hfirst : first.Covers href) (hsecond : second.Covers href)
    (h : first.url.utf8ByteSize = second.url.utf8ByteSize) : first.url = second.url := by
  have hcontinued : ∀ {a b : Namespace}, a.Covers href → b.Covers href →
      a.url.utf8ByteSize = b.url.utf8ByteSize → a.url.length ≤ b.url.length → a.url = b.url := by
    intro a b ha hb hsize hlength
    rcases ha.exists_url_eq_append hb hlength with ⟨rest, hrest⟩
    have hempty : rest.utf8ByteSize = 0 := by
      rw [hrest, String.utf8ByteSize_append] at hsize
      omega
    rw [hrest, String.utf8ByteSize_eq_zero_iff.mp hempty, String.append_empty]
  rcases Nat.le_total first.url.length second.url.length with hle | hle
  · exact hcontinued hfirst hsecond h hle
  · exact (hcontinued hsecond hfirst h.symm hle).symm

end

end Namespace

/-!
# Choosing
-/

namespace Context

/-- The namespace that an IRI is written under: one with the longest URL among those that
cover the IRI, and the last one registered for that URL. -/
structure Chooses (c : Context) (href : String) (ns : Namespace) : Prop where
  covers : ns.Covers href
  longest : ∀ other ∈ c.namespaces, other.Covers href →
    other.url.utf8ByteSize ≤ ns.url.utf8ByteSize
  last : (c.namespaces.filter fun other => other.url = ns.url).getLast? = some ns

instance (c : Context) (href : String) (ns : Namespace) : Decidable (c.Chooses href ns) :=
  decidable_of_iff
    (ns.Covers href ∧
      (∀ other ∈ c.namespaces, other.Covers href →
        other.url.utf8ByteSize ≤ ns.url.utf8ByteSize) ∧
      (c.namespaces.filter fun other => other.url = ns.url).getLast? = some ns)
    ⟨fun h => ⟨h.1, h.2.1, h.2.2⟩, fun h => ⟨h.covers, h.longest, h.last⟩⟩

namespace Chooses

variable {c : Context} {href : String} {ns : Namespace}

theorem mem (h : c.Chooses href ns) : ns ∈ c.namespaces :=
  (List.mem_filter.mp (List.mem_of_getLast? h.last)).1

theorem unique {other : Namespace} (h : c.Chooses href ns) (hother : c.Chooses href other) :
    other = ns := by
  have hsize : other.url.utf8ByteSize = ns.url.utf8ByteSize :=
    Nat.le_antisymm (h.longest other hother.mem hother.covers)
      (hother.longest ns h.mem h.covers)
  have hlast := hother.last
  rw [hother.covers.url_eq h.covers hsize, h.last] at hlast
  exact (Option.some.inj hlast).symm

/-- A namespace that does not cover the IRI, or only with a shorter URL, changes nothing. -/
theorem insert_of_shorter {added : Namespace} (h : c.Chooses href ns)
    (hadded : added.Covers href → added.url.length < ns.url.length) :
    (c.insert added).Chooses href ns where
  covers := h.covers
  longest := by
    intro other hother hcovers
    rcases List.mem_append.mp hother with hold | hnew
    · exact h.longest other hold hcovers
    · rw [List.mem_singleton.mp hnew] at hcovers ⊢
      exact hcovers.utf8ByteSize_le h.covers (Nat.le_of_lt (hadded hcovers))
  last := by
    have hne : added.url ≠ ns.url := by
      intro hsame
      have hcovers : added.Covers href := by
        rw [Namespace.Covers, hsame]
        exact h.covers
      exact absurd (hadded hcovers) (by rw [hsame]; exact Nat.lt_irrefl _)
    rw [Context.insert, List.filter_append, List.filter_cons_of_neg (by simpa using hne),
      List.filter_nil, List.append_nil]
    exact h.last

end Chooses

/-- A namespace that covers the IRI is chosen when no earlier one has a longer URL. -/
theorem chooses_insert {c : Context} {href : String} {added : Namespace}
    (hadded : added.Covers href)
    (h : ∀ other ∈ c.namespaces, other.Covers href →
      other.url.utf8ByteSize ≤ added.url.utf8ByteSize) :
    (c.insert added).Chooses href added where
  covers := hadded
  longest := by
    intro other hother hcovers
    rcases List.mem_append.mp hother with hold | hnew
    · exact h other hold hcovers
    · exact Nat.le_of_eq (by rw [List.mem_singleton.mp hnew])
  last := by
    rw [Context.insert, List.filter_append, List.filter_cons_of_pos (by simp), List.filter_nil,
      List.getLast?_concat]

/-!
# What is found

One namespace after the other is compared with the best one so far.
-/

/-- What a search for the namespace of an IRI should give. -/
def Finds (c : Context) (href : String) : Option (Namespace × String) → Prop
  | none => ∀ ns ∈ c.namespaces, ¬ ns.Covers href
  | some (ns, term) => c.Chooses href ns ∧ ns.term? href = some term

theorem longestMatch?_insert (c : Context) (ns : Namespace) (href : String) :
    (c.insert ns).longestMatch? href = better href (c.longestMatch? href) ns :=
  List.foldl_append

/-- One more namespace. -/
theorem Finds.insert {c : Context} {href : String} {best : Option (Namespace × String)}
    (h : c.Finds href best) (ns : Namespace) :
    (c.insert ns).Finds href (better href best ns) := by
  unfold better
  cases hterm : ns.term? href with
  | none =>
      have huncovered := Namespace.term?_eq_none_iff.mp hterm
      cases best with
      | none =>
          intro other hother
          rcases List.mem_append.mp hother with hold | hnew
          · exact h other hold
          · rw [List.mem_singleton.mp hnew]
            exact huncovered
      | some held =>
          exact ⟨h.1.insert_of_shorter fun hcovers => absurd hcovers huncovered, h.2⟩
  | some term =>
      have hcovers : ns.Covers href := Namespace.covers_iff.mpr ⟨term, hterm⟩
      cases best with
      | none =>
          exact ⟨chooses_insert hcovers fun other hother hother' =>
            absurd hother' (h other hother), hterm⟩
      | some held =>
          rcases held with ⟨held, heldTerm⟩
          rcases h with ⟨hheld, hheldTerm⟩
          by_cases hshorter : ns.url.length < held.url.length
          · simp only [if_pos hshorter]
            exact ⟨hheld.insert_of_shorter fun _ => hshorter, hheldTerm⟩
          · simp only [if_neg hshorter]
            have hsize := hheld.covers.utf8ByteSize_le hcovers (Nat.le_of_not_lt hshorter)
            refine ⟨chooses_insert hcovers ?_, hterm⟩
            intro other hother hcovered
            exact Nat.le_trans (hheld.longest other hother hcovered) hsize

theorem finds_longestMatch? (c : Context) (href : String) :
    c.Finds href (c.longestMatch? href) := by
  rcases c with ⟨namespaces⟩
  induction namespaces using List.reverseRecOn with
  | nil =>
      intro ns hns
      cases hns
  | append_singleton earlier ns ih =>
      have hfinds := ih.insert ns
      rw [← longestMatch?_insert] at hfinds
      exact hfinds

/-- A namespace is chosen for an IRI that some namespace covers. -/
theorem exists_chooses {c : Context} {href : String} (h : ∃ ns ∈ c.namespaces, ns.Covers href) :
    ∃ ns, c.Chooses href ns := by
  have hfinds := c.finds_longestMatch? href
  generalize c.longestMatch? href = best at hfinds
  rcases h with ⟨ns, hns, hcovers⟩
  cases best with
  | none => exact absurd hcovers (hfinds ns hns)
  | some found => exact ⟨found.1, hfinds.1⟩

/-!
# Short names
-/

/-- An identifier is written by the label of the namespace chosen and the rest of the IRI. -/
theorem shorten_of_chooses {c : Context} {id : Identifier} {ns : Namespace} {term : String}
    (h : c.Chooses id.href ns) (hterm : ns.url ++ term = id.href) :
    c.shorten id = ns.qualify term := by
  have hfinds := c.finds_longestMatch? id.href
  unfold shorten
  cases hbest : c.longestMatch? id.href with
  | none =>
      rw [hbest] at hfinds
      exact absurd h.covers (hfinds ns h.mem)
  | some found =>
      rw [hbest] at hfinds
      rcases found with ⟨held, heldTerm⟩
      rcases hfinds with ⟨hheld, hheldTerm⟩
      rw [h.unique hheld, Namespace.term?_eq_some_iff] at hheldTerm
      have hsame : heldTerm = term :=
        (String.append_right_inj ns.url).mp (hheldTerm.2.trans hterm.symm)
      rw [h.unique hheld, hsame]

theorem shorten_of_uncovered {c : Context} {id : Identifier}
    (h : ∀ ns ∈ c.namespaces, ¬ ns.Covers id.href) : c.shorten id = id.href := by
  have hfinds := c.finds_longestMatch? id.href
  unfold shorten
  cases hbest : c.longestMatch? id.href with
  | none => rfl
  | some found =>
      rw [hbest] at hfinds
      exact absurd hfinds.1.covers (h found.1 hfinds.1.mem)

/-!
# Orders of registration
-/

/-- The same namespaces, those of any one URL in the same order. -/
def Reordered (c d : Context) : Prop :=
  ∀ url, (c.namespaces.filter fun ns => ns.url = url) = d.namespaces.filter fun ns => ns.url = url

namespace Reordered

variable {c d : Context}

theorem symm (h : c.Reordered d) : d.Reordered c :=
  fun url => (h url).symm

theorem mem {ns : Namespace} (h : c.Reordered d) (hns : ns ∈ c.namespaces) :
    ns ∈ d.namespaces := by
  have hfilter : ns ∈ c.namespaces.filter fun other => other.url = ns.url :=
    List.mem_filter.mpr ⟨hns, decide_eq_true rfl⟩
  rw [h ns.url] at hfilter
  exact (List.mem_filter.mp hfilter).1

theorem chooses {href : String} {ns : Namespace} (h : c.Reordered d)
    (hchooses : c.Chooses href ns) : d.Chooses href ns where
  covers := hchooses.covers
  longest := fun other hother => hchooses.longest other (h.symm.mem hother)
  last := by
    rw [← h ns.url]
    exact hchooses.last

theorem shorten_eq (h : c.Reordered d) (id : Identifier) : d.shorten id = c.shorten id := by
  by_cases hcovered : ∃ ns ∈ c.namespaces, ns.Covers id.href
  · rcases exists_chooses hcovered with ⟨ns, hchooses⟩
    rcases hchooses.covers with ⟨term, _, hterm⟩
    rw [shorten_of_chooses hchooses hterm, shorten_of_chooses (h.chooses hchooses) hterm]
  · have huncovered : ∀ ns ∈ c.namespaces, ¬ ns.Covers id.href :=
      fun ns hns hcovers => hcovered ⟨ns, hns, hcovers⟩
    rw [shorten_of_uncovered huncovered,
      shorten_of_uncovered fun ns hns => huncovered ns (h.symm.mem hns)]

end Reordered

/-- Neighbours with different URLs may change places. -/
theorem reordered_swap {first second : Namespace} (h : first.url ≠ second.url)
    (front back : List Namespace) :
    Reordered ⟨front ++ first :: second :: back⟩ ⟨front ++ second :: first :: back⟩ := by
  intro url
  show (front ++ first :: second :: back).filter _ = (front ++ second :: first :: back).filter _
  rw [List.filter_append, List.filter_append]
  by_cases hfirst : first.url = url
  · have hsecond : second.url ≠ url := fun hsame => h (hfirst.trans hsame.symm)
    simp [hfirst, hsecond]
  · simp [List.filter_cons, hfirst]

/-!
# The written name
-/

/--
An identifier is written under the namespace with the longest URL among those that cover
its IRI, the last one registered for that URL: as the rest of the IRI, which is never
empty, after the label of the namespace and a colon unless the label is empty.  If no
namespace covers the IRI, it is written in full.  Neither the name of the identifier nor
the order in which namespaces with different URLs were registered matters.
-/
theorem shorten_under_longest_url (c : Context) (id : Identifier) :
    ((∃ ns ∈ c.namespaces, ns.Covers id.href) →
      ∃ ns, c.Chooses id.href ns ∧ (∀ other, c.Chooses id.href other → other = ns) ∧
        ∃ term, term ≠ "" ∧ ns.url ++ term = id.href ∧
          c.shorten id = if ns.label = "" then term else ns.label ++ ":" ++ term) ∧
      ((¬ ∃ ns ∈ c.namespaces, ns.Covers id.href) → c.shorten id = id.href) ∧
      (∀ name, c.shorten { id with name } = c.shorten id) ∧
      ∀ d : Context, c.Reordered d → d.shorten id = c.shorten id := by
  refine ⟨?_, ?_, fun name => rfl, fun d hreordered => hreordered.shorten_eq id⟩
  · intro hcovered
    rcases exists_chooses hcovered with ⟨ns, hchooses⟩
    rcases hchooses.covers with ⟨term, hnonempty, hterm⟩
    exact ⟨ns, hchooses, fun other hother => hchooses.unique hother, term, hnonempty, hterm,
      shorten_of_chooses hchooses hterm⟩
  · intro huncovered
    exact shorten_of_uncovered fun ns hns hcovers => huncovered ⟨ns, hns, hcovers⟩

/-- One namespace inside another and registered twice, beside one that begins every IRI. -/
def nestedNamespaces : Context :=
  { namespaces :=
      [⟨"ext", "https://schema.org/ext/"⟩, ⟨"any", ""⟩, ⟨"", "https://schema.org/"⟩,
        ⟨"x", "https://schema.org/ext/"⟩] }

/-- The same registered in another order, but for the two of one URL. -/
def nestedNamespacesReordered : Context :=
  { namespaces :=
      [⟨"any", ""⟩, ⟨"ext", "https://schema.org/ext/"⟩, ⟨"", "https://schema.org/"⟩,
        ⟨"x", "https://schema.org/ext/"⟩] }

theorem shorten_under_nestedNamespaces :
    (∃ ns ∈ nestedNamespaces.namespaces, ns.Covers "https://schema.org/ext/Größe") ∧
      (∃ ns, nestedNamespaces.Chooses "https://schema.org/ext/Größe" ns ∧
        ∃ term, term ≠ "" ∧ ns.url ++ term = "https://schema.org/ext/Größe" ∧
          nestedNamespaces.shorten ⟨"size", "https://schema.org/ext/Größe"⟩ =
            if ns.label = "" then term else ns.label ++ ":" ++ term) ∧
      nestedNamespaces.shorten ⟨"size", "https://schema.org/ext/Größe"⟩ = "x:Größe" ∧
      nestedNamespaces.Reordered nestedNamespacesReordered ∧
      nestedNamespacesReordered.shorten ⟨"size", "https://schema.org/ext/Größe"⟩ = "x:Größe" ∧
      (¬ ∃ ns ∈ nestedNamespaces.namespaces, ns.Covers "") ∧
      nestedNamespaces.shorten ⟨"nothing", ""⟩ = "" := by
  have hcovered : ∃ ns ∈ nestedNamespaces.namespaces,
      ns.Covers "https://schema.org/ext/Größe" := by
    decide
  have huncovered : ¬ ∃ ns ∈ nestedNamespaces.namespaces, ns.Covers "" := by
    decide
  have hreordered : nestedNamespaces.Reordered nestedNamespacesReordered :=
    reordered_swap (by decide) [] _
  have hsize : nestedNamespaces.shorten ⟨"size", "https://schema.org/ext/Größe"⟩ = "x:Größe" := by
    decide
  rcases shorten_under_longest_url nestedNamespaces ⟨"size", "https://schema.org/ext/Größe"⟩ with
    ⟨hchosen, _, _, horder⟩
  rcases hchosen hcovered with ⟨ns, hchooses, _, hshorten⟩
  rcases shorten_under_longest_url nestedNamespaces ⟨"nothing", ""⟩ with ⟨_, hfull, _, _⟩
  exact ⟨hcovered, ⟨ns, hchooses, hshorten⟩, hsize, hreordered,
    (horder _ hreordered).trans hsize, huncovered, hfull huncovered⟩

/-- An IRI that is the URL of a namespace is written under a namespace outside it. -/
example : nestedNamespaces.shorten ⟨"ext", "https://schema.org/ext/"⟩ = "ext/" := by
  decide

end Context
end VocabTypes
