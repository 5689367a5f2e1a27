import Mathlib.Data.List.Basic
import Mathlib.Tactic.Common
import ScriptHost.Proofs.Program.Closed
import ScriptHost.Proofs.Scope.Listed
import ScriptHost.Proofs.Scope.Renamed
/-!
# Declarations in another order

Two stretches of declarations that change places get other numbers, and so do the classes in them
and what names lead to, but all else stays. Names lead to the same as before, once the numbers are
renamed: `renames_swapped`.
-/

set_option autoImplicit false

namespace ScriptHost

/-! ## Two stretches of a list change places -/

section Places

/-- The place that `i` goes to when the `a` places from `start` on and the `b` places behind them
change places. -/
def swapPlaces (start a b i : Nat) : Nat :=
  if i < start then i
  else if i < start + a then i + b
  else if i < start + a + b then i - a
  else i

variable {start a b i : Nat}

theorem swapPlaces_of_lt (h : i < start) : swapPlaces start a b i = i :=
  if_pos h

theorem swapPlaces_of_ge (h : start + a + b ≤ i) : swapPlaces start a b i = i := by
  unfold swapPlaces
  split_ifs <;> omega

theorem swapPlaces_first (h : i < a) : swapPlaces start a b (start + i) = start + b + i := by
  unfold swapPlaces
  split_ifs <;> omega

theorem swapPlaces_second (h : i < b) : swapPlaces start a b (start + a + i) = start + i := by
  unfold swapPlaces
  split_ifs <;> omega

theorem swapPlaces_injective (start a b : Nat) : Function.Injective (swapPlaces start a b) := by
  intro i j h
  unfold swapPlaces at h
  split_ifs at h <;> omega

/-- Places may be counted from further on. -/
theorem swapPlaces_add (base start a b i : Nat) :
    swapPlaces (base + start) a b (base + i) = base + swapPlaces start a b i := by
  unfold swapPlaces
  split_ifs <;> omega

/-- Two stretches that change places leave the list a permutation of what it was. -/
theorem perm_swapped {α : Type} (front first second rest : List α) :
    (front ++ (first ++ (second ++ rest))).Perm (front ++ (second ++ (first ++ rest))) := by
  refine List.Perm.append_left _ ?_
  rw [← List.append_assoc, ← List.append_assoc]
  exact List.perm_append_comm.append_right _

/-- What holds of any two neighbours that change places holds of any two orders, as long as it goes
through in steps. -/
theorem rel_of_perm {α : Type} (related : List α → List α → Prop) (refl : ∀ l, related l l)
    (swap : ∀ front x y rest, related (front ++ x :: y :: rest) (front ++ y :: x :: rest))
    (trans : ∀ a b c, related a b → related b c → related a c) {l l' : List α} (h : l.Perm l') :
    related l l' := by
  -- The induction goes under a front that stays as it is.
  have general : ∀ front, related (front ++ l) (front ++ l') := by
    induction h with
    | nil => exact fun front => refl _
    | cons x _ ih =>
      intro front
      have hbehind := ih (front ++ [x])
      rwa [List.append_assoc, List.append_assoc] at hbehind
    | swap x y rest => exact fun front => swap front y x rest
    | trans _ _ ih ih' => exact fun front => trans _ _ _ (ih front) (ih' front)
  exact general []

/-- What stands at a place stands at the new place once the stretches have changed places. -/
theorem getElem?_swapPlaces {α : Type} (front first second rest : List α) (i : Nat) :
    (front ++ (second ++ (first ++ rest)))[swapPlaces front.length first.length second.length i]? =
      (front ++ (first ++ (second ++ rest)))[i]? := by
  unfold swapPlaces
  simp only [List.getElem?_append]
  split_ifs <;> first | rfl | omega | (congr 1; omega)

end Places

/-! ## Declarations -/

/-- A class that refers to no function with a new number stays the same. -/
theorem Class.Closed.rename_eq {r : Renaming} {c : Class} {bound : Nat} (h : c.Closed bound)
    (hkept : ∀ id < bound, r.function id = id) : c.rename r = c := by
  obtain ⟨name, fields, ⟨entries⟩, fieldInit, constructor?⟩ := c
  obtain ⟨hfieldInit, hmethods, hconstructor⟩ := h
  dsimp only at hfieldInit hmethods hconstructor
  have hentries : entries.map (fun entry => (entry.1, r.function entry.2)) = entries :=
    (List.map_congr_left fun entry hentry => by rw [hkept _ (hmethods entry hentry)]; rfl).trans
      (List.map_id entries)
  have hmade : constructor?.map r.function = constructor? := by
    cases constructor? with
    | none => rfl
    | some id => rw [Option.map_some, hkept id (hconstructor id rfl)]
  unfold Class.rename
  dsimp only
  rw [hentries, hkept fieldInit hfieldInit, hmade]

namespace Declaration

variable {name? : Declaration → Option String} {count : Declaration → Nat}

/-- The same names, counted from further on. -/
theorem numbers_add (next more : Nat) (ds : List Declaration) :
    numbers name? count (next + more) ds =
      (numbers name? count next ds).map (Prod.map id (· + more)) := by
  induction ds generalizing next with
  | nil => rfl
  | cons d rest ih =>
    rw [numbers, numbers, List.map_append, ← ih, List.map_map, Nat.add_right_comm]
    rfl

/-- The numbers are those of what is declared. -/
theorem numbers_bound (hcount : ∀ d, (name? d).isSome → 0 < count d) {next : Nat}
    {ds : List Declaration} {entry : String × Nat} (h : entry ∈ numbers name? count next ds) :
    next ≤ entry.2 ∧ entry.2 < next + total count ds := by
  induction ds generalizing next with
  | nil => cases h
  | cons d rest ih =>
    rw [numbers, List.mem_append] at h
    rw [total]
    obtain h | h := h
    · obtain ⟨name, hname, rfl⟩ := List.mem_map.mp h
      have hpos := hcount d (by rw [Option.mem_toList.mp hname]; rfl)
      exact ⟨Nat.le_refl _, by dsimp only; omega⟩
    · have := ih h
      omega

/-- A list of numbered names is the same under a map that keeps the numbers in it. -/
theorem map_numbers_eq_self {entries : List (String × Nat)} {move : Nat → Nat}
    (h : ∀ entry ∈ entries, move entry.2 = entry.2) : entries.map (Prod.map id move) = entries := by
  refine (List.map_congr_left fun entry hentry => ?_).trans (List.map_id _)
  rw [Prod.map, h entry hentry]
  rfl

/-- When two stretches of declarations change places, so do the numbers of the names in them. -/
theorem numbers_swapped (hcount : ∀ d, (name? d).isSome → 0 < count d) (next : Nat)
    (front first second rest : List Declaration) :
    (numbers name? count next (front ++ (second ++ (first ++ rest)))).Perm
      ((numbers name? count next (front ++ (first ++ (second ++ rest)))).map
        (Prod.map id
          (swapPlaces (next + total count front) (total count first) (total count second)))) := by
  generalize hmove : swapPlaces (next + total count front) (total count first)
    (total count second) = move
  have hfront : (numbers name? count next front).map (Prod.map id move) =
      numbers name? count next front := map_numbers_eq_self fun entry hentry => by
    rw [← hmove, swapPlaces_of_lt (numbers_bound hcount hentry).2]
  have hfirst : (numbers name? count (next + total count front) first).map (Prod.map id move) =
      numbers name? count (next + total count front + total count second) first := by
    rw [numbers_add _ (total count second)]
    refine List.map_congr_left fun entry hentry => ?_
    have hbound := numbers_bound hcount hentry
    obtain ⟨place, hplace⟩ := Nat.exists_eq_add_of_le hbound.1
    rw [Prod.map, Prod.map, hplace, ← hmove, swapPlaces_first (by omega), Nat.add_right_comm]
  have hsecond : (numbers name? count (next + total count front + total count first) second).map
      (Prod.map id move) = numbers name? count (next + total count front) second := by
    rw [numbers_add _ (total count first), List.map_map]
    refine (List.map_congr_left fun entry hentry => ?_).trans (List.map_id _)
    have hbound := numbers_bound hcount hentry
    obtain ⟨place, hplace⟩ := Nat.exists_eq_add_of_le hbound.1
    have hback : move (entry.2 + total count first) = entry.2 := by
      rw [hplace, Nat.add_right_comm, ← hmove, swapPlaces_second (by omega)]
    rw [Function.comp_apply, Prod.map, Prod.map, hback]
    rfl
  have hrest : (numbers name? count
      (next + total count front + total count first + total count second) rest).map
        (Prod.map id move) = numbers name? count
          (next + total count front + total count first + total count second) rest :=
    map_numbers_eq_self fun entry hentry => by
      rw [← hmove, swapPlaces_of_ge (numbers_bound hcount hentry).1]
  rw [numbers_append, numbers_append, numbers_append, numbers_append, numbers_append,
    numbers_append, List.map_append, List.map_append, List.map_append, hfront, hfirst, hsecond,
    hrest, Nat.add_right_comm _ (total count second)]
  exact perm_swapped ..

/-- The classes in a declaration get other numbers for their members, and stay the same else. -/
theorem classes_rename {r : Renaming} {next later : Nat} (d : Declaration)
    (h : ∀ place < d.functionCount, r.function (next + place) = later + place) :
    (d.classes next).map (Class.rename r) = d.classes later := by
  cases d with
  | function | global => rfl
  | classOf name fields methods =>
    have hcount : (Declaration.classOf name fields methods).functionCount = methods.length + 1 := by
      simp [functionCount, signatures]
    have hfirst : r.function next = later := h 0 (by omega)
    have htable : (methodTable (next + 1) methods).entries.map (Prod.map id r.function) =
        (methodTable (later + 1) methods).entries := by
      unfold methodTable
      rw [List.mapIdx_eq_zipIdx_map, List.mapIdx_eq_zipIdx_map, List.map_map]
      refine List.map_congr_left fun entry hentry => ?_
      have hplace := List.snd_lt_of_mem_zipIdx hentry
      have hnumber := h (1 + entry.2) (by omega)
      rw [← Nat.add_assoc, ← Nat.add_assoc] at hnumber
      exact congrArg (Prod.mk entry.1.name) hnumber
    have hconstructor : ((methodTable (next + 1) methods).get? constructorName).map r.function =
        (methodTable (later + 1) methods).get? constructorName := by
      rw [← Table.get?_map, htable]
    have hmethods : (⟨(methodTable (next + 1) methods).entries.map
        fun entry => (entry.1, r.function entry.2)⟩ : Table Nat) =
          methodTable (later + 1) methods := congrArg Table.mk htable
    refine congrArg (fun c => [c]) ?_
    unfold madeClass Class.rename
    dsimp only
    rw [hmethods, hfirst, hconstructor]

theorem classesAll_rename {r : Renaming} {next later : Nat} (ds : List Declaration)
    (h : ∀ place < total functionCount ds, r.function (next + place) = later + place) :
    (classesAll next ds).map (Class.rename r) = classesAll later ds := by
  induction ds generalizing next later with
  | nil => rfl
  | cons d rest ih =>
    rw [total] at h
    rw [classesAll, classesAll, List.map_append, classes_rename d fun place hplace => h place (by omega),
      ih fun place hplace => ?_]
    rw [Nat.add_assoc, Nat.add_assoc]
    exact h (d.functionCount + place) (by omega)

end Declaration

/-! ## Names under other numbers -/

namespace Declarations

open Declaration

variable {program : Program} {front first second rest : List Declaration} {d d' : Declarations}

/-- The new numbers of functions and classes when two stretches of declarations change places. Global
variables have new ones of their own. -/
def swapped (program : Program) (front first second : List Declaration) (global : Nat → Nat) :
    Renaming where
  function := swapPlaces (program.functions.size + total functionCount front)
    (total functionCount first) (total functionCount second)
  classId := swapPlaces (program.classes.size + total classCount front)
    (total classCount first) (total classCount second)
  global := global

/-- Names lead to the numbers that their declarations have now. -/
theorem get?_swapped {name? : Declaration → Option String} {count : Declaration → Nat}
    (hcount : ∀ d, (name? d).isSome → 0 < count d) (next : Nat) {t t' : Table Nat}
    (ht : t.entries = numbers name? count next (front ++ (first ++ (second ++ rest))))
    (ht' : t'.entries = numbers name? count next (front ++ (second ++ (first ++ rest))))
    (hdistinct : ((front ++ (first ++ (second ++ rest))).filterMap name?).Nodup) (name : String) :
    t'.get? name = (t.get? name).map
      (swapPlaces (next + total count front) (total count first) (total count second)) := by
  rw [← Table.get?_map]
  refine Table.get?_perm ?_ ?_ name
  · unfold Table.Distinct Table.names
    rw [List.map_map]
    change (t.entries.map (·.1)).Nodup
    rwa [ht, map_fst_numbers]
  · rw [ht, ht']
    exact numbers_swapped hcount next front first second rest

theorem functionName?_counts (x : Declaration) (h : x.functionName?.isSome) :
    0 < x.functionCount := by
  cases x with
  | function => exact Nat.one_pos
  | classOf | global => cases h

theorem className?_counts (x : Declaration) (h : x.className?.isSome) : 0 < x.classCount := by
  cases x with
  | classOf => exact Nat.one_pos
  | function | global => cases h

/-- A function has its name and arity under its new number. -/
theorem signature_swapped {env : Env} {globalNames : Table Nat} (global : Nat → Nat)
    (h : Tabulates env.program (front ++ (first ++ (second ++ rest))) d)
    (h' : Tabulates env.program (front ++ (second ++ (first ++ rest))) d') (id : Nat) :
    ({ env := { env with program := { env.program with globalNames } }
       declared := d' } : Scope.Context).signature
        ((swapped env.program front first second global).function id) =
      ({ env, declared := d } : Scope.Context).signature id := by
  have hfunction : (swapped env.program front first second global).function =
      swapPlaces (env.program.functions.size + total functionCount front)
        (total functionCount first) (total functionCount second) := rfl
  unfold Scope.Context.signature
  dsimp only
  rw [hfunction, h.functionBase, h'.functionBase]
  by_cases hid : env.program.functions.size ≤ id
  · obtain ⟨place, rfl⟩ := Nat.exists_eq_add_of_le hid
    rw [swapPlaces_add, if_pos (Nat.le_add_right ..), if_pos (Nat.le_add_right ..),
      Nat.add_sub_cancel_left, Nat.add_sub_cancel_left, ← Array.getElem?_toList,
      ← Array.getElem?_toList, h.functions, h'.functions]
    simp only [List.flatMap_append, ← length_signatures]
    rw [getElem?_swapPlaces]
  · rw [swapPlaces_of_lt (by omega), if_neg hid, if_neg hid]

/-- A class has its members under their new numbers, under its own new number. -/
theorem classOf?_swapped {env : Env} {globalNames : Table Nat} (global : Nat → Nat)
    (hclosed : env.program.Closed)
    (h : Tabulates env.program (front ++ (first ++ (second ++ rest))) d)
    (h' : Tabulates env.program (front ++ (second ++ (first ++ rest))) d') (id : Nat) :
    ({ env := { env with program := { env.program with globalNames } }
       declared := d' } : Scope.Context).classOf?
        ((swapped env.program front first second global).classId id) =
      (({ env, declared := d } : Scope.Context).classOf? id).map
        (Class.rename (swapped env.program front first second global)) := by
  generalize hr : swapped env.program front first second global = r
  have hfunction : r.function = swapPlaces (env.program.functions.size + total functionCount front)
      (total functionCount first) (total functionCount second) := hr ▸ rfl
  have hclass : r.classId = swapPlaces (env.program.classes.size + total classCount front)
      (total classCount first) (total classCount second) := hr ▸ rfl
  unfold Scope.Context.classOf?
  dsimp only
  rw [hclass, h.classBase, h'.classBase]
  by_cases hid : env.program.classes.size ≤ id
  · obtain ⟨place, rfl⟩ := Nat.exists_eq_add_of_le hid
    have hfront : (classesAll env.program.functions.size front).map (Class.rename r) =
        classesAll env.program.functions.size front := classesAll_rename front fun place hplace => by
      rw [hfunction, swapPlaces_of_lt (by omega)]
    have hfirst : (classesAll (env.program.functions.size + total functionCount front) first).map
        (Class.rename r) = classesAll (env.program.functions.size + total functionCount front +
          total functionCount second) first := classesAll_rename first fun place hplace => by
      rw [hfunction, swapPlaces_first hplace]
    have hsecond : (classesAll (env.program.functions.size + total functionCount front +
        total functionCount first) second).map (Class.rename r) = classesAll
          (env.program.functions.size + total functionCount front) second :=
      classesAll_rename second fun place hplace => by
        rw [hfunction, swapPlaces_second hplace]
    have hrest : (classesAll (env.program.functions.size + total functionCount front +
        total functionCount first + total functionCount second) rest).map (Class.rename r) =
          classesAll (env.program.functions.size + total functionCount front +
            total functionCount first + total functionCount second) rest :=
      classesAll_rename rest fun place hplace => by
        rw [hfunction, swapPlaces_of_ge (Nat.le_add_right ..)]
    rw [swapPlaces_add, if_pos (Nat.le_add_right ..), if_pos (Nat.le_add_right ..),
      Nat.add_sub_cancel_left, Nat.add_sub_cancel_left, ← Array.getElem?_toList,
      ← Array.getElem?_toList, h.classes, h'.classes, h.functionBase, h'.functionBase,
      ← List.getElem?_map]
    simp only [classesAll_append, List.map_append, hfront, hfirst, hsecond, hrest]
    rw [Nat.add_right_comm _ (total functionCount second), ← length_classesAll
      env.program.functions.size front, ← length_classesAll (env.program.functions.size +
        total functionCount front + total functionCount second) first, ← length_classesAll
          (env.program.functions.size + total functionCount front) second, getElem?_swapPlaces]
  · rw [swapPlaces_of_lt (by omega), if_neg hid, if_neg hid]
    cases hc : env.program.classes[id]? with
    | none => rfl
    | some c =>
      rw [Option.map_some, (hclosed.classes id c hc).rename_eq fun id hid => ?_]
      rw [hfunction, swapPlaces_of_lt (by omega)]

/-- Names lead to the same in both orders, but for the numbers. What becomes of the numbers of global
variables is left open. -/
theorem renames_swapped {env : Env} {globalNames : Table Nat} {global : Nat → Nat}
    (hclosed : env.program.Closed)
    (hdistinct : Distinct (front ++ (first ++ (second ++ rest))))
    (h : Tabulates env.program (front ++ (first ++ (second ++ rest))) d)
    (h' : Tabulates env.program (front ++ (second ++ (first ++ rest))) d')
    (hglobals : ∀ name, d'.globals.get? name = (d.globals.get? name).map global)
    (hold : ∀ name, globalNames.get? name = (env.program.globalNames.get? name).map global) :
    Scope.Context.Renames (swapped env.program front first second global) { env, declared := d }
      { env := { env with program := { env.program with globalNames } }, declared := d' } where
  lookup := rfl
  warningLevel := rfl
  space := rfl
  member := rfl
  inFunction := rfl
  functionNames := Scope.Context.leads?_renamed
    (get?_swapped functionName?_counts _ (h.functionBase ▸ h.functionNames)
      (h'.functionBase ▸ h'.functionNames) hdistinct.functions) fun name => by
    cases hname : env.program.functionNames.get? name with
    | none => rfl
    | some id =>
      have hid := hclosed.functionNames name id hname
      exact congrArg some (swapPlaces_of_lt (by omega)).symm
  classNames := Scope.Context.leads?_renamed
    (get?_swapped className?_counts _ (h.classBase ▸ h.classNames)
      (h'.classBase ▸ h'.classNames) hdistinct.classes) fun name => by
    cases hname : env.program.classNames.get? name with
    | none => rfl
    | some id =>
      have hid := hclosed.classNames name id hname
      exact congrArg some (swapPlaces_of_lt (by omega)).symm
  globals := Scope.Context.leads?_renamed hglobals hold
  signature := fun id _ => signature_swapped global h h' id
  classOf? := fun id _ => classOf?_swapped global hclosed h h' id
  members := fun _ _ function _ _ _ => signature_swapped global h h' function
  own := fun _ hid => by cases hid

end Declarations

end ScriptHost
