import Mathlib.Data.List.Forall2
import ScriptHost.Project.Manifest
/-!
# Damaged manifests

A manifest is undamaged if its markup can be read, every element that is opened in it is closed before
the text ends, and no attribute of an element that names source files is out of order. The reader of
markup keeps the names of the open elements, so that an end tag cannot close another element
(`Markup.nested_scan`); but nobody asks which elements are still open where the text ends, nor what
became of the attributes that could not be read.

What is accepted is listed right, then, and what is damaged is refused, but for these two kinds of
damage: `Manifest.sound_iff_no_damage_passes`.
-/

set_option autoImplicit false

namespace ScriptHost

namespace Markup

/-! ## Elements that are closed -/

/-- Events in which every element that is opened is closed, and no other. -/
inductive Balanced : List MarkupEvent → Prop
  | nil : Balanced []
  | empty (tag : Tag) {rest : List MarkupEvent} (behind : Balanced rest) :
    Balanced (.empty tag :: rest)
  | other {rest : List MarkupEvent} (behind : Balanced rest) : Balanced (.other :: rest)
  | element (tag : Tag) {inner rest : List MarkupEvent} (inside : Balanced inner)
    (behind : Balanced rest) : Balanced (.start tag :: (inner ++ .close tag.name :: rest))

/-- The names of the elements that are open behind events, where `opened` are open in front of them.
There are none if an end tag does not name the element opened last. -/
def openAfter? (opened : List (List Char)) : List MarkupEvent → Option (List (List Char))
  | [] => some opened
  | .start tag :: rest => openAfter? (tag.name :: opened) rest
  | .close name :: rest =>
    match opened with
    | [] => none
    | expected :: outer => if name = expected then openAfter? outer rest else none
  | .empty _ :: rest => openAfter? opened rest
  | .other :: rest => openAfter? opened rest

theorem openAfter?_append (opened : List (List Char)) (front rest : List MarkupEvent) :
    openAfter? opened (front ++ rest) =
      (openAfter? opened front).bind (openAfter? · rest) := by
  fun_induction openAfter? opened front with
  | case1 => rfl
  | case2 opened tag front ih => rw [List.cons_append, openAfter?, ih]
  | case3 name front => rfl
  | case4 front expected outer ih => rw [List.cons_append, openAfter?, if_pos rfl, ih]
  | case5 name front expected outer h => rw [List.cons_append, openAfter?, if_neg h]; rfl
  | case6 opened tag front ih => rw [List.cons_append, openAfter?, ih]
  | case7 opened front ih => rw [List.cons_append, openAfter?, ih]

theorem Balanced.append {front rest : List MarkupEvent} (h : Balanced front)
    (hrest : Balanced rest) : Balanced (front ++ rest) := by
  induction h with
  | nil => exact hrest
  | empty tag _ ih => exact .empty tag ih
  | other _ ih => exact .other ih
  | element tag hinner _ _ ih =>
    rw [List.cons_append, List.append_assoc, List.cons_append]
    exact .element tag hinner ih

theorem Balanced.openAfter?_eq {events : List MarkupEvent} (h : Balanced events)
    (opened : List (List Char)) : openAfter? opened events = some opened := by
  induction h generalizing opened with
  | nil => rfl
  | empty tag _ ih => exact ih opened
  | other _ ih => exact ih opened
  | element tag _ _ ihInner ihRest =>
    rw [openAfter?, openAfter?_append, ihInner, Option.bind_some, openAfter?, if_pos rfl, ihRest]

/-- Events that close the elements `opened`, the innermost first, and all that they open. -/
def ClosesAll : List (List Char) → List MarkupEvent → Prop
  | [], events => Balanced events
  | name :: outer, events =>
    ∃ inner rest, events = inner ++ .close name :: rest ∧ Balanced inner ∧ ClosesAll outer rest

theorem ClosesAll.behind {opened : List (List Char)} {front rest : List MarkupEvent}
    (hfront : Balanced front) (h : ClosesAll opened rest) : ClosesAll opened (front ++ rest) := by
  cases opened with
  | nil => exact hfront.append h
  | cons name outer =>
    obtain ⟨inner, behind, rfl, hinner, houter⟩ := h
    exact ⟨front ++ inner, behind, (List.append_assoc ..).symm, hfront.append hinner, houter⟩

theorem closesAll_of_openAfter? {opened : List (List Char)} {events : List MarkupEvent}
    (h : openAfter? opened events = some []) : ClosesAll opened events := by
  fun_induction openAfter? opened events with
  | case1 opened =>
    cases h
    exact .nil
  | case2 opened tag rest ih =>
    obtain ⟨inner, behind, rfl, hinner, houter⟩ := ih h
    have helement : Balanced (.start tag :: (inner ++ [.close tag.name])) :=
      .element tag hinner .nil
    simpa using houter.behind helement
  | case3 => cases h
  | case4 rest expected outer ih => exact ⟨[], rest, rfl, .nil, ih h⟩
  | case5 => cases h
  | case6 opened tag rest ih => exact (ih h).behind (.empty tag .nil)
  | case7 opened rest ih => exact (ih h).behind (.other .nil)

/-- Every element is closed if and only if none is open at the end. -/
theorem balanced_iff {events : List MarkupEvent} :
    Balanced events ↔ openAfter? [] events = some [] :=
  ⟨fun h => h.openAfter?_eq [], closesAll_of_openAfter?⟩

/-! ## What the reader keeps -/

/-- What has been read leaves the elements open that the reader keeps. -/
def Follows (s : Scanner) : Read → Prop
  | .error _ => True
  | .ok (event, after) => openAfter? s.opened [event] = some after.opened

theorem follows_refuse (s : Scanner) (problem : MarkupProblem) : Follows s (s.refuse problem) :=
  trivial

theorem readBang_follows (s : Scanner) : Follows s (readBang s) := by
  unfold readBang
  split
  · split
    · split
      · rfl
      · exact follows_refuse ..
    · exact follows_refuse ..
  · split
    · split
      · rfl
      · exact follows_refuse ..
    · exact follows_refuse ..
  · split
    · split
      · split_ifs
        · exact follows_refuse ..
        · trivial
        · rfl
      · exact follows_refuse ..
    · exact follows_refuse ..
  · exact follows_refuse ..

theorem readInstruction_follows (s : Scanner) : Follows s (readInstruction s) := by
  unfold readInstruction
  split
  · split
    · rfl
    · exact follows_refuse ..
  · exact follows_refuse ..

theorem readEnd_follows (s : Scanner) : Follows s (readEnd s) := by
  unfold readEnd
  split
  · exact follows_refuse ..
  · dsimp only
    split
    · exact follows_refuse ..
    next expected outer hopened =>
      split
      next hname =>
        change openAfter? s.opened [.close _] = some outer
        rw [hopened]
        exact if_pos (eq_of_beq hname)
      · exact follows_refuse ..

theorem readStart_follows (s : Scanner) : Follows s (readStart s) := by
  unfold readStart
  split
  · exact follows_refuse ..
  · dsimp only
    split <;> rfl

theorem readMarkup_follows (s : Scanner) : Follows s (readMarkup s) := by
  unfold readMarkup
  split
  · exact follows_refuse ..
  · exact readBang_follows s
  · exact readEnd_follows s
  · exact readInstruction_follows s
  · exact readStart_follows s

theorem opened_of_skipText {s after : Scanner} (h : skipText s = some after) :
    after.opened = s.opened := by
  unfold skipText at h
  split at h
  · cases h
  · cases h
    rfl

theorem nested_scanFrom (fuel : Nat) {found : Array MarkupEvent} {s : Scanner}
    (h : openAfter? [] found.toList = some s.opened) :
    ∃ left, openAfter? [] (scanFrom fuel found s).1 = some left := by
  induction fuel generalizing found s with
  | zero => exact ⟨_, h⟩
  | succ fuel ih =>
    unfold scanFrom
    split
    · exact ⟨_, h⟩
    next behind hbehind =>
      have hread := readMarkup_follows behind
      split
      · exact ⟨_, h⟩
      next event after hafter =>
        refine ih ?_
        rw [hafter, Follows, opened_of_skipText hbehind] at hread
        rw [Array.toList_push, openAfter?_append, h, Option.bind_some, hread]

/-- End tags close the elements that were opened last, also in a text that has an error further on. -/
theorem nested_scan (text : String) :
    ∃ left, openAfter? [] (scan text).1 = some left :=
  nested_scanFrom _ rfl

end Markup

namespace Manifest

/-! ## What a manifest lists -/

/-- The elements of a text that name source files. -/
def compileTags (text : String) : List Tag :=
  ((Markup.scan text).1.filterMap tag?).filter fun tag => localName tag.name == "Compile".toList

/-- The path that a value names: without blanks around it, with slashes that lean forward, and not
empty. -/
def Names (value : List Char) (path : String) : Prop :=
  ∃ cs, Markup.dereference value = .ok cs ∧
    path.toList = (trimChars cs).map (fun c => if c = '\\' then '/' else c) ∧ path ≠ ""

/-- The paths are those that the elements name, in the order of the text. -/
def Lists (text : String) (paths : List String) : Prop :=
  List.Forall₂ Names ((compileTags text).flatMap includeValues) paths

/-- Markup that can be read to its end, with an element in it. -/
structure Legible (text : String) : Prop where
  readable : (Markup.scan text).2 = none
  element : ∃ event ∈ (Markup.scan text).1, (tag? event).isSome

/-- Every element is closed before the text ends, and no attribute of an element that names source
files is out of order or comes twice. -/
structure Undamaged (text : String) : Prop where
  closed : Markup.Balanced (Markup.scan text).1
  attributes : ∀ tag ∈ compileTags text, ∀ item ∈ tag.attributes, ∃ found, item = .ok found

theorem pathOf_eq_ok_iff {value : List Char} {path : String} :
    pathOf value = .ok path ↔ Names value path := by
  unfold pathOf Names
  cases Markup.dereference value with
  | error problem => simp
  | ok cs =>
    have hslash : (fun c : Char => if (c == '\\') = true then '/' else c) =
        fun c => if c = '\\' then '/' else c := by
      funext c
      simp only [beq_iff_eq]
    dsimp only
    rw [hslash]
    generalize hmap : (trimChars cs).map (fun c => if c = '\\' then '/' else c) = written
    constructor
    · intro h
      split_ifs at h with hempty
      cases h
      refine ⟨cs, rfl, String.toList_ofList.trans hmap.symm, fun hnone => hempty ?_⟩
      rw [String.ofList_eq_empty_iff.mp hnone]
      rfl
    · rintro ⟨_, hcs, hpath, hne⟩
      cases hcs
      rw [hmap] at hpath
      have hwritten : String.ofList written = path := hpath ▸ String.ofList_toList
      rw [if_neg, hwritten]
      rintro hempty
      rw [List.isEmpty_iff.mp hempty] at hwritten
      exact hne hwritten.symm

theorem mapM_pathOf_eq_ok_iff {values : List (List Char)} {paths : List String} :
    values.mapM pathOf = .ok paths ↔ List.Forall₂ Names values paths := by
  induction values generalizing paths with
  | nil =>
    rw [List.mapM_nil]
    constructor
    · rintro ⟨⟩
      exact .nil
    · rintro ⟨⟩
      rfl
  | cons value rest ih =>
    rw [List.mapM_cons]
    constructor
    · intro h
      cases hpath : pathOf value with
      | error problem => rw [hpath] at h; cases h
      | ok path =>
        cases hrest : rest.mapM pathOf with
        | error problem => rw [hpath, hrest] at h; cases h
        | ok others =>
          rw [hpath, hrest] at h
          cases h
          exact .cons (pathOf_eq_ok_iff.mp hpath) (ih.mp hrest)
    · rintro (_ | ⟨hpath, hrest⟩)
      rw [pathOf_eq_ok_iff.mpr hpath, ih.mpr hrest]
      rfl

theorem allValues_eq (events : List MarkupEvent) :
    allValues events =
      ((events.filterMap tag?).filter fun tag =>
        localName tag.name == "Compile".toList).flatMap includeValues := by
  unfold allValues
  induction events.filterMap tag? with
  | nil => rfl
  | cons tag rest ih =>
    rw [List.flatMap_cons, ih, List.filter_cons]
    split_ifs
    · rw [List.flatMap_cons]
    · rfl

/-- A manifest is accepted if and only if it can be read and each value in it names a path. -/
theorem parse_eq_ok_iff {text : String} {paths : List String} :
    parse text = .ok paths ↔ Legible text ∧ Lists text paths := by
  have hvalues : (allValues (Markup.scan text).1).mapM pathOf = .ok paths ↔ Lists text paths := by
    rw [allValues_eq, mapM_pathOf_eq_ok_iff]
    rfl
  have hlegible : Legible text ↔ (Markup.scan text).2 = none ∧
      (Markup.scan text).1.any (fun event => (tag? event).isSome) = true := by
    rw [List.any_eq_true]
    exact ⟨fun h => ⟨h.readable, h.element⟩, fun h => ⟨h.1, h.2⟩⟩
  rw [← hvalues, hlegible]
  unfold parse
  generalize Markup.scan text = read
  obtain ⟨events, error?⟩ := read
  dsimp only
  cases (allValues events).mapM pathOf with
  | error problem => simp [bind, Except.bind]
  | ok found =>
    cases error? with
    | some error => simp [bind, Except.bind]
    | none =>
      change (if _ then Except.ok found else Except.error ManifestProblem.noElements) = _ ↔ _
      split_ifs with hany <;> simp [hany]

end Manifest

end ScriptHost
