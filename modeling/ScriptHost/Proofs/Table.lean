import Mathlib.Data.List.Nodup
import ScriptHost.Table
/-!
# What a table holds

What is under a name after entries have been put in, and that no name comes twice.
-/

set_option autoImplicit false

namespace ScriptHost.Table

variable {α : Type}

/-- No name comes twice. -/
def Distinct (t : Table α) : Prop :=
  t.names.Nodup

/-- The entry under a name in a list with an entry in front. -/
theorem get?_cons (name other : String) (a : α) (rest : List (String × α)) :
    (Table.mk ((name, a) :: rest)).get? other =
      if other = name then some a else (Table.mk rest).get? other := by
  unfold get?
  rw [List.find?_cons]
  by_cases h : other = name
  · simp [h]
  · have hne : (name == other) = false := by simpa using Ne.symm h
    simp [h, hne]

/-- What is under a name after an entry has been put in. -/
theorem get?_insert (t : Table α) (name other : String) (a : α) :
    (t.insert name a).get? other = if other = name then some a else t.get? other := by
  obtain ⟨entries⟩ := t
  unfold insert
  induction entries with
  | nil => rw [put, get?_cons]
  | cons entry rest ih =>
    obtain ⟨found, b⟩ := entry
    rw [put]
    by_cases hfound : found = name
    · subst hfound
      simp only [beq_self_eq_true, if_true, get?_cons]
      by_cases h : other = found <;> simp [h]
    · have hne : (found == name) = false := by simpa using hfound
      simp only [hne, Bool.false_eq_true, if_false, get?_cons, ih]
      by_cases h : other = found
      · simp [h, hfound]
      · simp [h]

/-- An entry under a name is one of the entries. -/
theorem mem_of_get? {t : Table α} {name : String} {a : α} (h : t.get? name = some a) :
    (name, a) ∈ t.entries := by
  unfold get? at h
  obtain ⟨entry, hfind, rfl⟩ := Option.map_eq_some_iff.mp h
  have hname := List.find?_some hfind
  have hmem := List.mem_of_find?_eq_some hfind
  rw [beq_iff_eq] at hname
  exact hname ▸ hmem

/-- The entries of a table are what is under their names, if no name comes twice. -/
theorem get?_eq_some_iff {t : Table α} (h : t.Distinct) {name : String} {a : α} :
    t.get? name = some a ↔ (name, a) ∈ t.entries := by
  refine ⟨mem_of_get?, fun hmem => ?_⟩
  obtain ⟨entries⟩ := t
  unfold Distinct names at h
  induction entries with
  | nil => cases hmem
  | cons entry rest ih =>
    obtain ⟨found, b⟩ := entry
    rw [List.map_cons, List.nodup_cons] at h
    rw [get?_cons]
    obtain hhead | htail := List.mem_cons.mp hmem
    · cases hhead
      simp
    · have hne : name ≠ found := by
        rintro rfl
        exact h.1 (List.mem_map.mpr ⟨_, htail, rfl⟩)
      rw [if_neg hne]
      exact ih h.2 htail

/-- A name is in a table if there is an entry under it. -/
theorem contains_iff (t : Table α) (name : String) : t.contains name = true ↔ name ∈ t.names := by
  simp [contains, names]

/-- There is no entry under a name that is not in the table. -/
theorem get?_eq_none_iff (t : Table α) (name : String) : t.get? name = none ↔ name ∉ t.names := by
  rw [get?, Option.map_eq_none_iff, List.find?_eq_none, names, List.mem_map]
  simp only [beq_iff_eq, not_exists, not_and]

/-- To put an entry under a name that is in the table does not change the names. -/
theorem names_insert_of_mem {t : Table α} {name : String} (h : name ∈ t.names) (a : α) :
    (t.insert name a).names = t.names := by
  obtain ⟨entries⟩ := t
  unfold insert names at *
  induction entries with
  | nil => cases h
  | cons entry rest ih =>
    rw [put]
    by_cases hfound : entry.1 = name
    · simp [hfound]
    · have hne : (entry.1 == name) = false := by simpa using hfound
      have htail : name ∈ rest.map (·.1) := by
        obtain hhead | htail := List.mem_cons.mp h
        · exact absurd hhead.symm hfound
        · exact htail
      simp only [hne, Bool.false_eq_true, if_false, List.map_cons, ih htail]

/-- An entry under a new name comes last. -/
theorem entries_insert_of_not_mem {t : Table α} {name : String} (h : name ∉ t.names) (a : α) :
    (t.insert name a).entries = t.entries ++ [(name, a)] := by
  obtain ⟨entries⟩ := t
  unfold insert names at *
  induction entries with
  | nil => rfl
  | cons entry rest ih =>
    rw [List.map_cons, List.mem_cons, not_or] at h
    have hne : (entry.1 == name) = false := by simpa using Ne.symm h.1
    simp only [put, hne, Bool.false_eq_true, if_false, List.cons_append]
    exact congrArg (entry :: ·) (ih h.2)

/-- No name comes twice after an entry has been put in. -/
theorem Distinct.insert {t : Table α} (h : t.Distinct) (name : String) (a : α) :
    (t.insert name a).Distinct := by
  unfold Distinct
  by_cases hmem : name ∈ t.names
  · rw [names_insert_of_mem hmem]
    exact h
  · unfold names
    rw [entries_insert_of_not_mem hmem, List.map_append]
    exact List.nodup_append.mpr ⟨h, by simp, by
      rintro other hother _ hlast rfl
      obtain rfl : other = name := by simpa using hlast
      exact hmem hother⟩

/-- Entries after entries. -/
theorem insertAll_append (t : Table α) (front rest : List (String × α)) :
    t.insertAll (front ++ rest) = (t.insertAll front).insertAll rest :=
  List.foldl_append

/-- What is under a name that none of the entries has. -/
theorem get?_insertAll_of_not_mem (t : Table α) {entries : List (String × α)} {name : String}
    (h : name ∉ entries.map (·.1)) : (t.insertAll entries).get? name = t.get? name := by
  unfold insertAll
  induction entries generalizing t with
  | nil => rfl
  | cons entry rest ih =>
    rw [List.map_cons, List.mem_cons, not_or] at h
    rw [List.foldl_cons, ih _ h.2, get?_insert, if_neg h.1]

/-- What is under the name of one of the entries, if no other entry has the name. -/
theorem get?_insertAll_of_only (t : Table α) {entries : List (String × α)} {name : String} {a : α}
    (h : (name, a) ∈ entries) (honly : ∀ b, (name, b) ∈ entries → b = a) :
    (t.insertAll entries).get? name = some a := by
  induction entries generalizing t with
  | nil => cases h
  | cons entry rest ih =>
    change ((t.insert entry.1 entry.2).insertAll rest).get? name = some a
    have hrest : ∀ b, (name, b) ∈ rest → b = a := fun b hb => honly b (List.mem_cons_of_mem _ hb)
    by_cases hmem : name ∈ rest.map (·.1)
    · obtain ⟨⟨_, b⟩, hb, rfl⟩ := List.mem_map.mp hmem
      obtain rfl := hrest b hb
      exact ih _ hb hrest
    · obtain rfl | htail := List.mem_cons.mp h
      · rw [get?_insertAll_of_not_mem _ hmem, get?_insert, if_pos rfl]
      · exact absurd (List.mem_map_of_mem htail) hmem

/-- What is under the name of one of the entries, if they have different names. -/
theorem get?_insertAll_of_mem (t : Table α) {entries : List (String × α)}
    (hdistinct : (entries.map (·.1)).Nodup) {name : String} {a : α}
    (h : (name, a) ∈ entries) : (t.insertAll entries).get? name = some a :=
  t.get?_insertAll_of_only h fun _ hb =>
    congrArg Prod.snd (List.inj_on_of_nodup_map hdistinct hb h rfl)

/-- What is under a name after several entries have been put in is one of them, or was there. -/
theorem get?_insertAll_cases {t : Table α} {entries : List (String × α)} {name : String} {a : α}
    (h : (t.insertAll entries).get? name = some a) :
    (name, a) ∈ entries ∨ t.get? name = some a := by
  induction entries generalizing t with
  | nil => exact .inr h
  | cons entry rest ih =>
    change ((t.insert entry.1 entry.2).insertAll rest).get? name = some a at h
    obtain hrest | hinsert := ih h
    · exact .inl (List.mem_cons_of_mem _ hrest)
    · rw [get?_insert] at hinsert
      split at hinsert
      · rename_i hname
        rw [Option.some.injEq] at hinsert
        exact .inl (by simp [hname, ← hinsert])
      · exact .inr hinsert

/-- Names that are in a table stay. -/
theorem mem_names_insertAll {t : Table α} {name : String} (h : name ∈ t.names)
    (entries : List (String × α)) : name ∈ (t.insertAll entries).names := by
  induction entries generalizing t with
  | nil => exact h
  | cons entry rest ih =>
    refine ih ?_
    by_cases hmem : entry.1 ∈ t.names
    · rw [names_insert_of_mem hmem]
      exact h
    · unfold names
      rw [entries_insert_of_not_mem hmem, List.map_append]
      exact List.mem_append_left _ h

/-- Entries under new names, all different, come behind those that are there. -/
theorem entries_insertAll_of_new {t : Table α} {entries : List (String × α)}
    (hdistinct : (entries.map (·.1)).Nodup) (hnew : ∀ entry ∈ entries, entry.1 ∉ t.names) :
    (t.insertAll entries).entries = t.entries ++ entries := by
  induction entries generalizing t with
  | nil => simp [insertAll]
  | cons entry rest ih =>
    rw [List.map_cons, List.nodup_cons] at hdistinct
    have hentry := hnew entry (List.mem_cons_self ..)
    change ((t.insert entry.1 entry.2).insertAll rest).entries = _
    rw [ih hdistinct.2, entries_insert_of_not_mem hentry, List.append_assoc]
    · rfl
    · intro other hother
      unfold names
      rw [entries_insert_of_not_mem hentry, List.map_append, List.mem_append, not_or]
      refine ⟨hnew other (List.mem_cons_of_mem _ hother), ?_⟩
      simp only [List.map_cons, List.map_nil, List.mem_singleton]
      intro hsame
      exact hdistinct.1 (hsame ▸ List.mem_map_of_mem hother)

/-- A table does not get smaller. -/
theorem size_le_insertAll (t : Table α) (entries : List (String × α)) :
    t.size ≤ (t.insertAll entries).size := by
  induction entries generalizing t with
  | nil => exact Nat.le_refl _
  | cons entry rest ih =>
    refine Nat.le_trans ?_ (ih (t.insert entry.1 entry.2))
    unfold size
    by_cases hmem : entry.1 ∈ t.names
    · have hnames := congrArg List.length (names_insert_of_mem hmem entry.2)
      unfold names at hnames
      rw [List.length_map, List.length_map] at hnames
      exact Nat.le_of_eq hnames.symm
    · rw [entries_insert_of_not_mem hmem, List.length_append]
      exact Nat.le_add_right ..

/-- To put in an entry that is there changes nothing. -/
theorem insert_of_get? {t : Table α} {name : String} {a : α}
    (h : t.get? name = some a) : t.insert name a = t := by
  obtain ⟨entries⟩ := t
  unfold insert
  congr 1
  induction entries with
  | nil => cases h
  | cons entry rest ih =>
    obtain ⟨found, other⟩ := entry
    rw [get?_cons] at h
    rw [put]
    by_cases hname : name = found
    · rw [if_pos hname, Option.some.injEq] at h
      simp [hname, h]
    · rw [if_neg hname] at h
      have hne : (found == name) = false := by simpa using Ne.symm hname
      simp only [hne, Bool.false_eq_true, if_false, ih h]

/-- The same for several entries. -/
theorem insertAll_of_get? {t : Table α} {entries : List (String × α)}
    (h : ∀ entry ∈ entries, t.get? entry.1 = some entry.2) : t.insertAll entries = t := by
  unfold insertAll
  induction entries with
  | nil => rfl
  | cons entry rest ih =>
    rw [List.foldl_cons, insert_of_get? (h entry (List.mem_cons_self ..))]
    exact ih fun other hother => h other (List.mem_cons_of_mem _ hother)

/-- The order of the entries is nothing to what is under a name, if no name comes twice. -/
theorem get?_perm {t other : Table α} (h : t.Distinct) (hperm : other.entries.Perm t.entries)
    (name : String) : other.get? name = t.get? name := by
  have hother : other.Distinct := (hperm.map Prod.fst).nodup_iff.mpr h
  refine Option.ext fun a => ?_
  rw [get?_eq_some_iff hother, get?_eq_some_iff h, hperm.mem_iff]

/-- What is under a name when every entry has been changed. -/
theorem get?_map {β : Type} (f : α → β) (entries : List (String × α)) (name : String) :
    (Table.mk (entries.map (Prod.map id f))).get? name = ((Table.mk entries).get? name).map f := by
  unfold get?
  rw [List.find?_map, Option.map_map, Option.map_map]
  rfl

end ScriptHost.Table
