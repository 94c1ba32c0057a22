import Mathlib.Data.List.Basic
import VocabTypes.Proofs.AddedClass

/-!
# The loaded graph

## What is loaded is the graph that the classes describe

Classes are loaded exactly when they come in order: each is new at its turn, and every
term that its facts name is registered by then.  The registry afterwards is the one
before with the described classes at its end, in the order in which they were given.
-/

namespace VocabTypes
namespace Registry

/-!
# Order of classes
-/

/-- Whether an IRI is known once some classes have been loaded. -/
def KnownAfter (b : Registry) (classes : List SourceClass) (href : String) : Prop :=
  (∃ id, b.find? href = some id) ∨ ∃ c ∈ classes, c.subject.href = href

/-- A class may follow some others if its IRI is new then and all that its facts name is known. -/
def MayFollow (b : Registry) (classes : List SourceClass) (c : SourceClass) : Prop :=
  ¬ b.KnownAfter classes c.subject.href ∧
    ∀ fact ∈ c.facts, ∀ target, fact.target? = some target → b.KnownAfter classes target.href

/-- Each class may follow the ones before it. -/
def WellOrdered (b : Registry) (classes : List SourceClass) : Prop :=
  ∀ k c, classes[k]? = some c → b.MayFollow (classes.take k) c

theorem knownAfter_nil {b : Registry} {href : String} :
    b.KnownAfter [] href ↔ ∃ id, b.find? href = some id := by
  simp [KnownAfter]

theorem mayFollow_nil {b : Registry} {c : SourceClass} : b.MayFollow [] c ↔ b.Admits c := by
  simp only [MayFollow, Admits, TargetsKnown, knownAfter_nil]
  rw [← Option.isSome_iff_exists, Bool.not_eq_true, Option.isSome_eq_false_iff,
    Option.isNone_iff_eq_none]

theorem AddedClass.knownAfter_iff {b s : Registry} {c : SourceClass} (h : AddedClass b c s)
    {classes : List SourceClass} {href : String} :
    s.KnownAfter classes href ↔ b.KnownAfter (c :: classes) href := by
  have hfind : (∃ id, s.find? href = some id) ↔
      c.subject.href = href ∨ ∃ id, b.find? href = some id := by
    rw [h.find?]
    by_cases hsame : href = c.subject.href
    · simp [hsame]
    · simp [hsame, Ne.symm hsame]
  rw [KnownAfter, KnownAfter, hfind, List.exists_mem_cons_iff, or_left_comm, or_assoc]

theorem AddedClass.mayFollow_iff {b s : Registry} {c : SourceClass} (h : AddedClass b c s)
    {classes : List SourceClass} {next : SourceClass} :
    s.MayFollow classes next ↔ b.MayFollow (c :: classes) next := by
  simp only [MayFollow, h.knownAfter_iff]

theorem wellOrdered_nil (b : Registry) : b.WellOrdered [] := by
  intro k c hk
  cases hk

theorem AddedClass.wellOrdered_cons_iff {b s : Registry} {c : SourceClass}
    (h : AddedClass b c s) {classes : List SourceClass} :
    b.WellOrdered (c :: classes) ↔ b.MayFollow [] c ∧ s.WellOrdered classes := by
  constructor
  · intro hordered
    refine ⟨hordered 0 c rfl, ?_⟩
    intro k next hk
    exact h.mayFollow_iff.mpr (hordered (k + 1) next hk)
  · intro hordered
    rcases hordered with ⟨hfirst, hrest⟩
    intro k next hk
    cases k with
    | zero =>
        cases hk
        exact hfirst
    | succ k => exact h.mayFollow_iff.mp (hrest k next hk)

theorem WellFormed.load_ok_iff {b : Registry} (h : b.WellFormed) {classes : List SourceClass} :
    (b.load classes).2 = .ok () ↔ b.WellOrdered classes := by
  induction classes generalizing b with
  | nil => exact ⟨fun _ => b.wellOrdered_nil, fun _ => rfl⟩
  | cons c classes ih =>
      have hfirst := (h.loadClass_ok_iff (c := c)).trans mayFollow_nil.symm
      have hsteps := b.loadClass_steps c
      cases hclass : b.loadClass c with
      | mk next outcome =>
          rw [hclass] at hfirst hsteps
          cases outcome with
          | error failure =>
              constructor
              · intro hok
                rw [load, hclass] at hok
                cases hok
              · intro hordered
                cases hfirst.mpr (hordered 0 c rfl)
          | ok _ =>
              rw [load_cons_of_ok hclass, ih (h.steps hsteps),
                (h.addedClass hclass).wellOrdered_cons_iff]
              exact ⟨fun hrest => ⟨hfirst.mp rfl, hrest⟩, And.right⟩

/-!
# Names that stay known

What a class is linked to is the same in every later registry.
-/

section

variable {r s : Registry} {c : SourceClass}

theorem TargetsKnown.superclasses (h : r.TargetsKnown c) :
    ∀ term ∈ c.superclasses, ∃ id, r.find? term.href = some id := by
  intro term hterm
  rcases List.mem_filterMap.mp hterm with ⟨fact, hfact, hsuperclass⟩
  exact h fact hfact term (Fact.target?_eq_some_iff.mpr (Or.inl hsuperclass))

theorem TargetsKnown.successors (h : r.TargetsKnown c) :
    ∀ term ∈ c.successors, ∃ id, r.find? term.href = some id := by
  intro term hterm
  rcases List.mem_filterMap.mp hterm with ⟨fact, hfact, hsuccessor⟩
  exact h fact hfact term (Fact.target?_eq_some_iff.mpr (Or.inr hsuccessor))

theorem TargetsKnown.mono (h : r.TargetsKnown c)
    (hfound : ∀ href id, r.find? href = some id → s.find? href = some id) :
    s.TargetsKnown c := by
  intro fact hfact target htarget
  rcases h fact hfact target htarget with ⟨id, hid⟩
  exact ⟨id, hfound target.href id hid⟩

theorem positions_eq_of_found {terms : List Identifier}
    (hfound : ∀ href id, r.find? href = some id → s.find? href = some id)
    (hknown : ∀ term ∈ terms, ∃ id, r.find? term.href = some id) :
    s.positions terms = r.positions terms := by
  apply List.filterMap_congr
  intro term hterm
  rcases hknown term hterm with ⟨id, hid⟩
  rw [hid, hfound term.href id hid]

end

/-!
# New children
-/

/-- The classes, registered from a position on, that name the entity at `id` as a superclass. -/
def newChildren (r : Registry) (first : EntityId) (classes : List SourceClass) (id : EntityId) :
    List EntityId :=
  (classes.zipIdx first).flatMap fun (c, child) =>
    List.replicate ((r.positions c.superclasses).count id) child

theorem newChildren_concat (r : Registry) (first : EntityId) (classes : List SourceClass)
    (c : SourceClass) (id : EntityId) :
    r.newChildren first (classes ++ [c]) id =
      r.newChildren first classes id ++
        List.replicate ((r.positions c.superclasses).count id) (first + classes.length) := by
  simp [newChildren, List.zipIdx_append]

theorem newChildren_eq_of_found {r s : Registry} {classes : List SourceClass}
    (hfound : ∀ href id, r.find? href = some id → s.find? href = some id)
    (hknown : ∀ c ∈ classes, r.TargetsKnown c) (first id : EntityId) :
    s.newChildren first classes id = r.newChildren first classes id := by
  unfold newChildren
  apply List.flatMap_congr
  intro pair hpair
  rcases pair with ⟨c, child⟩
  have hclass := hknown c (List.fst_mem_of_mem_zipIdx hpair)
  dsimp only
  rw [positions_eq_of_found hfound hclass.superclasses]

theorem WellFormed.count_positions {r : Registry} (h : r.WellFormed) {terms : List Identifier}
    {id : EntityId} (hid : r.size ≤ id) : (r.positions terms).count id = 0 := by
  apply List.count_eq_zero_of_not_mem
  intro hmem
  rcases List.mem_filterMap.mp hmem with ⟨term, _, hfound⟩
  exact Nat.not_lt.mpr hid (h.lt_of_find? hfound)

/-- Nothing is below an entity that has not been registered yet. -/
theorem WellFormed.newChildren_eq_nil {r : Registry} (h : r.WellFormed) {id : EntityId}
    (hid : r.size ≤ id) (first : EntityId) (classes : List SourceClass) :
    r.newChildren first classes id = [] := by
  apply List.flatMap_eq_nil_iff.mpr
  intro pair _
  rcases pair with ⟨c, child⟩
  dsimp only
  rw [h.count_positions hid]
  rfl

/-!
# The described graph
-/

/-- The registry `s` is `b` with the described classes at its end. -/
structure AddedClasses (b : Registry) (classes : List SourceClass) (s : Registry) : Prop where
  size : s.size = b.size + classes.length
  find? : ∀ href id, s.find? href = some id ↔ b.find? href = some id ∨
    ∃ k c, classes[k]? = some c ∧ c.subject.href = href ∧ id = b.size + k
  targetsKnown : ∀ c ∈ classes, s.TargetsKnown c
  added : ∀ k c, classes[k]? = some c → s.entity? (b.size + k) =
    some (c.entity (s.positions c.superclasses) (s.positions c.successors)
      (s.newChildren b.size classes (b.size + k)))
  earlier : ∀ id e, b.entity? id = some e → s.entity? id =
    some { e with children := e.children ++ s.newChildren b.size classes id }
  diagnostics : s.diagnostics = b.diagnostics ++ classes.flatMap SourceClass.remarks

theorem addedClasses_nil (b : Registry) : AddedClasses b [] b where
  size := rfl
  find? := by
    intro href id
    simp
  targetsKnown := by
    intro c hc
    cases hc
  added := by
    intro k c hk
    cases hk
  earlier := by
    intro id e he
    rw [newChildren, List.zipIdx_nil, List.flatMap_nil, List.append_nil]
    exact he
  diagnostics := (List.append_nil b.diagnostics).symm

theorem getElem?_concat_eq_some_iff {α : Type} {items : List α} {last item : α} {k : Nat} :
    (items ++ [last])[k]? = some item ↔
      items[k]? = some item ∨ k = items.length ∧ last = item := by
  grind

theorem AddedClasses.concat {b s t : Registry} {classes : List SourceClass} {c : SourceClass}
    (h : AddedClasses b classes s) (hs : s.WellFormed) (hadmits : s.Admits c)
    (hadded : AddedClass s c t) : AddedClasses b (classes ++ [c]) t := by
  rcases hadmits with ⟨hfresh, htargets⟩
  have hfound : ∀ href id, s.find? href = some id → t.find? href = some id := by
    intro href id hid
    rw [hadded.find?, if_neg (ne_of_find? hid hfresh)]
    exact hid
  have hsuperclasses := positions_eq_of_found hfound htargets.superclasses
  have hchildren : ∀ id, t.newChildren b.size (classes ++ [c]) id =
      s.newChildren b.size classes id ++
        List.replicate ((s.positions c.superclasses).count id) s.size := by
    intro id
    rw [newChildren_concat, newChildren_eq_of_found hfound h.targetsKnown, hsuperclasses, h.size]
  constructor
  case size =>
    rw [hadded.size, h.size, List.length_append, Nat.add_assoc]
    rfl
  case find? =>
    intro href id
    constructor
    · intro hid
      rw [hadded.find?] at hid
      split at hid
      case isTrue hsame =>
        cases hid
        refine Or.inr ⟨classes.length, c, List.getElem?_concat_length, hsame.symm, ?_⟩
        exact h.size
      case isFalse =>
        rcases (h.find? href id).mp hid with hold | ⟨k, other, hk, hhref, hlast⟩
        · exact Or.inl hold
        · exact Or.inr ⟨k, other, getElem?_concat_eq_some_iff.mpr (Or.inl hk), hhref, hlast⟩
    · intro hknown
      rcases hknown with hold | ⟨k, other, hk, hhref, hlast⟩
      · exact hfound href id ((h.find? href id).mpr (Or.inl hold))
      · rcases getElem?_concat_eq_some_iff.mp hk with hold | ⟨rfl, rfl⟩
        · exact hfound href id ((h.find? href id).mpr (Or.inr ⟨k, other, hold, hhref, hlast⟩))
        · rw [hadded.find?, if_pos hhref.symm, hlast, h.size]
  case targetsKnown =>
    intro other hother
    rcases List.mem_append.mp hother with hold | hlast
    · exact (h.targetsKnown other hold).mono hfound
    · rw [List.mem_singleton.mp hlast]
      exact htargets.mono hfound
  case added =>
    intro k other hk
    rw [hchildren]
    rcases getElem?_concat_eq_some_iff.mp hk with hold | ⟨rfl, rfl⟩
    · have hknown := h.targetsKnown other (List.mem_of_getElem? hold)
      rw [hadded.earlier _ _ (h.added k other hold),
        positions_eq_of_found hfound hknown.superclasses,
        positions_eq_of_found hfound hknown.successors]
      rfl
    · rw [← h.size, hadded.last, hsuperclasses,
        positions_eq_of_found hfound htargets.successors,
        hs.newChildren_eq_nil (Nat.le_refl s.size), hs.count_positions (Nat.le_refl s.size)]
      rfl
  case earlier =>
    intro id e he
    rw [hadded.earlier _ _ (h.earlier id e he), hchildren, List.append_assoc]
  case diagnostics =>
    rw [hadded.diagnostics, h.diagnostics, List.flatMap_append, List.append_assoc]
    simp

theorem AddedClasses.load {b s t : Registry} {classes more : List SourceClass}
    (h : AddedClasses b classes s) (hs : s.WellFormed) (hload : s.load more = (t, .ok ())) :
    AddedClasses b (classes ++ more) t := by
  induction more generalizing s classes with
  | nil =>
      cases hload
      rw [List.append_nil]
      exact h
  | cons c more ih =>
      have hsteps := s.loadClass_steps c
      have hadmits := (hs.loadClass_ok_iff (c := c)).mp
      cases hclass : s.loadClass c with
      | mk next outcome =>
          rw [hclass] at hsteps hadmits
          cases outcome with
          | error failure =>
              rw [Registry.load, hclass] at hload
              cases hload
          | ok _ =>
              rw [load_cons_of_ok hclass] at hload
              have hnext := h.concat hs (hadmits rfl) (hs.addedClass hclass)
              rw [List.append_cons]
              exact ih hnext (hs.steps hsteps) hload

/--
Classes are loaded exactly when they come in order.  A cycle can only be found at a class
that was registered before its turn, which comes once the classes before it have been
loaded.  What is loaded is the graph that the classes
describe: the registry before stays, with the described entities at its end, and its
entities get the new classes below them as children.
-/
theorem load_builds_described_graph {b : Registry} (hb : b.Reachable)
    (classes : List SourceClass) :
    ((b.load classes).2 = .ok () ↔ b.WellOrdered classes) ∧
      (∀ failure entity parent, (b.load classes).2 = .error failure →
        failure.cause = .inheritanceCycle entity parent →
          ∃ k c, classes[k]? = some c ∧ failure.href = c.subject.href ∧
            b.load (classes.take k) = ((b.load classes).1, .ok ()) ∧
            (b.load classes).1.loadClass c = ((b.load classes).1, .error failure) ∧
            b.KnownAfter (classes.take k) c.subject.href) ∧
      ((b.load classes).2 = .ok () → b.AddedClasses classes (b.load classes).1) := by
  have h := hb.wellFormed
  have hall : ∀ more after, b.load more = (after, .ok ()) → b.AddedClasses more after :=
    fun _ _ hload => b.addedClasses_nil.load h hload
  refine ⟨h.load_ok_iff, ?_, fun hok => hall classes _ (Prod.ext rfl hok)⟩
  intro failure entity parent hfailure hcause
  rcases h.load_refused_at (Prod.ext rfl hfailure) with ⟨k, c, hk, hbefore, hlast⟩
  have hsteps := b.load_steps (classes.take k)
  rw [hbefore] at hsteps
  have hafter := h.steps hsteps
  refine ⟨k, c, hk, (hafter.loadClass_refused hlast).right, hbefore, hlast, ?_⟩
  rcases hafter.known_of_cycle hlast hcause with ⟨id, hid⟩
  rcases ((hall _ _ hbefore).find? _ id).mp hid with hold | ⟨i, other, hi, hhref, _⟩
  · exact Or.inl ⟨id, hold⟩
  · exact Or.inr ⟨other, List.mem_of_getElem? hi, hhref⟩

/-- A registry with one class below another. -/
def shelf : Registry :=
  empty.run
    [.insertClass ⟨"Work", "s:Work"⟩ false,
      .insertClass ⟨"Book", "s:Book"⟩ false,
      .assert 1 (Statement.subclassOf ⟨"Work", "s:Work"⟩).toFact]

/-- A class that repeats its comment, and has a fact that is not understood. -/
def novelClass : SourceClass :=
  { subject := ⟨"Novel", "s:Novel"⟩
    allowString := true
    facts := [(Statement.comment "A novel.").toFact,
      (Statement.subclassOf ⟨"Book", "s:Book"⟩).toFact,
      ⟨"s:label", .literal "Novel"⟩,
      (Statement.comment "A long story.").toFact,
      (Statement.subclassOf ⟨"Work", "s:Work"⟩).toFact]
    properties := []
    enumValues := [] }

/-- A class below a new one, which it names twice, with an old one in its place. -/
def sequelClass : SourceClass :=
  { subject := ⟨"Sequel", "s:Sequel"⟩
    allowString := false
    facts := [(Statement.subclassOf ⟨"Novel", "s:Novel"⟩).toFact,
      (Statement.supersededBy ⟨"Book", "s:Book"⟩).toFact,
      (Statement.subclassOf ⟨"Novel", "s:Novel"⟩).toFact]
    properties := []
    enumValues := [] }

/-- The upper class of the registry once more, below the lower one. -/
def workBelowBook : SourceClass :=
  { subject := ⟨"Work", "s:Work"⟩
    allowString := false
    facts := [(Statement.subclassOf ⟨"Book", "s:Book"⟩).toFact]
    properties := []
    enumValues := [] }

theorem load_novel_sequel :
    shelf.Reachable ∧ shelf.WellOrdered [novelClass, sequelClass] ∧
      shelf.AddedClasses [novelClass, sequelClass] (shelf.load [novelClass, sequelClass]).1 ∧
      (shelf.load [novelClass, sequelClass]).1.entities.map Entity.children =
        [[1, 2], [2], [3, 3], []] ∧
      ¬ shelf.WellOrdered [novelClass, workBelowBook] ∧
      ∃ k c, [novelClass, workBelowBook][k]? = some c ∧ "s:Work" = c.subject.href ∧
        shelf.load ([novelClass, workBelowBook].take k) =
          ((shelf.load [novelClass, workBelowBook]).1, .ok ()) ∧
        (shelf.load [novelClass, workBelowBook]).1.loadClass c =
          ((shelf.load [novelClass, workBelowBook]).1,
            .error ⟨.facts, "s:Work", .inheritanceCycle "s:Work" "s:Book"⟩) ∧
        shelf.KnownAfter ([novelClass, workBelowBook].take k) c.subject.href := by
  have hr : shelf.Reachable := ⟨_, rfl⟩
  have hok : (shelf.load [novelClass, sequelClass]).2 = .ok () := by
    cbv
  have hcycle : (shelf.load [novelClass, workBelowBook]).2 =
      .error ⟨.facts, "s:Work", .inheritanceCycle "s:Work" "s:Book"⟩ := by
    cbv
  have hchildren : (shelf.load [novelClass, sequelClass]).1.entities.map Entity.children =
      [[1, 2], [2], [3, 3], []] := by
    cbv
  rcases load_builds_described_graph hr [novelClass, sequelClass] with ⟨hordered, _, hgraph⟩
  rcases load_builds_described_graph hr [novelClass, workBelowBook] with ⟨hmisordered, hknown, _⟩
  refine ⟨hr, hordered.mp hok, hgraph hok, hchildren, ?_, hknown _ _ _ hcycle rfl⟩
  intro hwell
  rw [hmisordered.mpr hwell] at hcycle
  cases hcycle

end Registry
end VocabTypes
