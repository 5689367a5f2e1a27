import ScriptHost.Proofs.Disk.Places
/-!
# Replacing a file

Steps that write files, on a disk and on a disk whose operations fail or break off at any time
(`Trial`). What holds at the end of the steps is told from what one operation does: `Keeps` for what
no step changes, `Ends` for steps that come to something new unless they fail.

A file is replaced by writing a draft beside it and giving the draft its path. Until that is done the
disk is what it was but for the draft (`Untouched`); then the path leads to all of the new bytes
(`Replaced`). In between there is nothing, whatever fails (`Whole`).
-/

set_option autoImplicit false

namespace ScriptHost

variable {σ ε α β : Type}

/-! ## Steps in a row -/

/-- What holds before the steps holds after them. -/
def Keeps (good : σ → Prop) (steps : StateM σ α) : Prop :=
  ∀ s, good s → good (steps.run s).2

/-- Where `start` holds, the steps come to a state with `goal`, or fail in one with `failed`. -/
structure Ends (start goal failed : σ → Prop) (steps : StateM σ (Except ε Unit)) : Prop where
  ok : ∀ {s}, start s → (steps.run s).1 = .ok () → goal (steps.run s).2
  error : ∀ {s e}, start s → (steps.run s).1 = .error e → failed (steps.run s).2

theorem Keeps.pure {good : σ → Prop} (a : α) : Keeps good (Pure.pure a : StateM σ α) :=
  fun _ h => h

theorem Keeps.bind {good : σ → Prop} {steps : StateM σ α} {next : α → StateM σ β}
    (h : Keeps good steps) (hnext : ∀ a, Keeps good (next a)) : Keeps good (steps >>= next) :=
  fun s hs => hnext (steps.run s).1 (steps.run s).2 (h s hs)

theorem Ends.success {goal failed : σ → Prop} :
    Ends goal goal failed (Pure.pure (.ok ()) : StateM σ (Except ε Unit)) where
  ok := fun h _ => h
  error := fun _ h => nomatch h

theorem Ends.failure {goal failed : σ → Prop} (e : ε) :
    Ends failed goal failed (Pure.pure (.error e) : StateM σ (Except ε Unit)) where
  ok := fun _ h => nomatch h
  error := fun h _ => h

theorem Ends.bind {ε' : Type} {start middle goal failed failed' : σ → Prop}
    {steps : StateM σ (Except ε Unit)} {next : Except ε Unit → StateM σ (Except ε' Unit)}
    (h : Ends start middle failed steps) (hok : Ends middle goal failed' (next (.ok ())))
    (herror : ∀ e, Ends failed goal failed' (next (.error e))) :
    Ends start goal failed' (steps >>= next) := by
  have hrest : ∀ s, start s → ∃ good, good (steps.run s).2 ∧
      Ends good goal failed' (next (steps.run s).1) := by
    intro s hs
    cases hfirst : (steps.run s).1 with
    | ok => exact ⟨middle, h.ok hs hfirst, hok⟩
    | error e => exact ⟨failed, h.error hs hfirst, herror e⟩
  constructor
  · intro s hs
    obtain ⟨good, hgood, hnext⟩ := hrest s hs
    exact hnext.ok hgood
  · intro s e hs
    obtain ⟨good, hgood, hnext⟩ := hrest s hs
    exact hnext.error hgood

theorem Ends.imp {start start' goal goal' failed failed' : σ → Prop}
    {steps : StateM σ (Except ε Unit)} (h : Ends start goal failed steps)
    (hstart : ∀ {s}, start' s → start s) (hgoal : ∀ {s}, goal s → goal' s)
    (hfailed : ∀ {s}, failed s → failed' s) : Ends start' goal' failed' steps where
  ok := fun hs hok => hgoal (h.ok (hstart hs) hok)
  error := fun hs herror => hfailed (h.error (hstart hs) herror)

theorem Ends.and {start goal failed good : σ → Prop} {steps : StateM σ (Except ε Unit)}
    (h : Ends start goal failed steps) (hkeeps : Keeps good steps) :
    Ends (fun s => start s ∧ good s) (fun s => goal s ∧ good s) failed steps where
  ok := fun {s} hs hok => ⟨h.ok hs.1 hok, hkeeps s hs.2⟩
  error := fun hs => h.error hs.1

theorem Keeps.ends {good : σ → Prop} {steps : StateM σ (Except ε Unit)} (h : Keeps good steps) :
    Ends good good good steps where
  ok := fun {s} hs _ => h s hs
  error := fun {s _} hs _ => h s hs

theorem Ends.keeps {good : σ → Prop} {steps : StateM σ (Except ε Unit)}
    (h : Ends good good good steps) : Keeps good steps := by
  intro s hs
  cases houtcome : (steps.run s).1 with
  | ok => exact h.ok hs houtcome
  | error e => exact h.error hs houtcome

namespace FileAccess

variable [FileAccess (StateM σ)] {good start goal failed : σ → Prop}

section

variable (hkind : ∀ path, Keeps good (kind? path : StateM σ _))
  (hmake : ∀ path, Keeps good (perform (.createDir path) : StateM σ _))

include hkind hmake

theorem keeps_ensureDir (path : String) : Keeps good (ensureDir path : StateM σ _) := by
  refine (hmake path).bind fun made => ?_
  cases made with
  | ok => exact .pure _
  | error e => exact ((hkind path).bind fun _ => .pure _).bind fun _ => .pure _

theorem keeps_createFirst (paths : List String) : Keeps good (createFirst paths : StateM σ _) := by
  induction paths with
  | nil => exact .pure _
  | cons path rest ih =>
    refine (keeps_ensureDir hkind hmake path).bind fun made => ?_
    split
    · refine ih.bind fun above => ?_
      cases above with
      | ok => exact keeps_ensureDir hkind hmake path
      | error => exact .pure _
    · exact .pure _

theorem keeps_createDirs (path : String) : Keeps good (createDirs path : StateM σ _) :=
  keeps_createFirst hkind hmake _

end

theorem keeps_performAll {actions : List DiskAction}
    (h : ∀ action ∈ actions, Keeps good (perform action : StateM σ _)) :
    Keeps good (performAll actions : StateM σ _) := by
  induction actions with
  | nil => exact .pure _
  | cons action rest ih =>
    obtain ⟨haction, hrest⟩ := List.forall_mem_cons.mp h
    refine haction.bind fun done => ?_
    cases done with
    | ok => exact ih hrest
    | error e => exact .pure _

theorem ends_performAll_nil : Ends start start failed (performAll [] : StateM σ _) where
  ok := fun h _ => h
  error := fun _ h => nomatch h

theorem ends_performAll_cons {action : DiskAction} {rest : List DiskAction} (middle : σ → Prop)
    (h : Ends start middle failed (perform action : StateM σ _))
    (hrest : Ends middle goal failed (performAll rest : StateM σ _)) :
    Ends start goal failed (performAll (action :: rest) : StateM σ _) :=
  h.bind hrest fun e => .failure e

end FileAccess

/-! ## Operations on a disk -/

theorem Disk.tryPerform_eq (disk : Disk) (action : DiskAction) :
    (∃ after, disk.perform action = .ok after ∧ disk.tryPerform action = (.ok (), after)) ∨
      ∃ e, disk.tryPerform action = (.error e, disk) := by
  unfold Disk.tryPerform
  cases disk.perform action with
  | ok after => exact .inl ⟨after, rfl, rfl⟩
  | error e => exact .inr ⟨e, rfl⟩

/-- On a disk, an operation that fails has done nothing. -/
theorem Disk.ends_perform {start goal failed : Disk → Prop} {action : DiskAction}
    (hfailed : ∀ {disk}, start disk → failed disk)
    (h : ∀ {before after}, start before → before.perform action = .ok after → goal after) :
    Ends start goal failed (FileAccess.perform action : StateM Disk _) := by
  have hrun : ∀ disk, (FileAccess.perform action : StateM Disk _).run disk = disk.tryPerform action :=
    fun _ => rfl
  constructor
  · intro disk hstart hok
    rw [hrun] at hok ⊢
    obtain ⟨after, hafter, htried⟩ | ⟨e, htried⟩ := disk.tryPerform_eq action
    · rw [htried]
      exact h hstart hafter
    · rw [htried] at hok
      cases hok
  · intro disk e hstart herror
    rw [hrun] at herror ⊢
    obtain ⟨after, -, htried⟩ | ⟨e, htried⟩ := disk.tryPerform_eq action
    · rw [htried] at herror
      cases herror
    · rw [htried]
      exact hfailed hstart

theorem Disk.keeps_createDirs {good : Disk → Prop}
    (h : ∀ {before after path}, good before → before.createDir path = .ok after → good after)
    (path : String) : Keeps good (FileAccess.createDirs path : StateM Disk _) := by
  refine FileAccess.keeps_createDirs (fun _ _ => id) (fun path => ?_) path
  exact (Disk.ends_perform id h).keeps

theorem Disk.run_performAll_cons {disk after : Disk} {action : DiskAction} {rest : List DiskAction}
    (h : disk.perform action = .ok after) :
    (FileAccess.performAll (action :: rest) : StateM Disk _).run disk =
      (FileAccess.performAll rest : StateM Disk _).run after := by
  have hrun : (FileAccess.perform action : StateM Disk _).run disk =
      pure (disk.tryPerform action) := rfl
  rw [FileAccess.performAll, StateT.run_bind, hrun, pure_bind, Disk.tryPerform, h]

theorem Disk.run_ensureDir (path : String) (disk : Disk) :
    (FileAccess.ensureDir path : StateM Disk _).run disk =
      match disk.createDir path with
      | .ok made => (.ok (), made)
      | .error e => (if disk.kind? path == some .dir then .ok () else .error e, disk) := by
  have hrun : (FileAccess.perform (.createDir path) : StateM Disk _).run disk =
      pure (disk.tryPerform (.createDir path)) := rfl
  rw [FileAccess.ensureDir, StateT.run_bind, hrun, pure_bind, Disk.tryPerform, Disk.perform]
  cases disk.createDir path <;> rfl

/-! ## Operations that break off -/

/-- What becomes of an operation. -/
inductive Fate where
  | done
  /-- It fails, and nothing is done. -/
  | refused (e : DiskError)
  /-- It counts as failed but is done, though only so many of the bytes that it appends. -/
  | broken (count : Nat) (e : DiskError)

/-- What is done of an operation that is broken. -/
def DiskAction.firstPart (count : Nat) : DiskAction → DiskAction
  | .append path bytes => .append path (bytes.extract 0 count)
  | action => action

/-- Nothing is missing where all bytes are written. -/
theorem DiskAction.firstPart_eq (action : DiskAction) : ∃ count, action.firstPart count = action := by
  cases action with
  | append path bytes => exact ⟨bytes.size, by rw [firstPart, ByteArray.extract_zero_size]⟩
  | _ => exact ⟨0, rfl⟩

/-- A disk whose operations have the fates that are laid down for them. -/
structure Trial where
  disk : Disk
  /-- The disks there were before. -/
  past : List Disk := []
  /-- What becomes of the operations from now on. -/
  fate : Nat → Fate

namespace Trial

/-- The disks there have been. -/
def disks (trial : Trial) : List Disk :=
  trial.disk :: trial.past

/-- The trial behind an operation that looks something up, and what it found unless it failed. -/
def look {α : Type} (trial : Trial) (found : Except DiskError α) : Except DiskError α × Trial :=
  let rest := { trial with fate := fun n => trial.fate (n + 1) }
  match trial.fate 0 with
  | .done => (found, rest)
  | .refused e | .broken _ e => (.error e, rest)

/-- The trial behind an operation that writes. -/
def perform (action : DiskAction) (trial : Trial) : Except DiskError Unit × Trial :=
  let later (disk : Disk) : Trial :=
    { disk, past := trial.disks, fate := fun n => trial.fate (n + 1) }
  match trial.fate 0 with
  | .done =>
    let (outcome, disk) := trial.disk.tryPerform action
    (outcome, later disk)
  | .refused e => (.error e, later trial.disk)
  | .broken count e => (.error e, later (trial.disk.tryPerform (action.firstPart count)).2)

instance : FileAccess (StateM Trial) where
  readText path := fun trial => trial.look (trial.disk.readText path)
  listDir path := fun trial => trial.look (trial.disk.listDir path)
  kind? path := fun trial =>
    let (found, rest) := trial.look (.ok (trial.disk.kind? path))
    (found.toOption.join, rest)
  perform action := fun trial => trial.perform action

/-- Each disk there has been is good. -/
def Always (good : Disk → Prop) (trial : Trial) : Prop :=
  ∀ disk ∈ trial.disks, good disk

/-- Each disk there has been is good, and the disk there is has a property of its own. -/
def Stands (good now : Disk → Prop) (trial : Trial) : Prop :=
  trial.Always good ∧ now trial.disk

theorem Always.imp {good good' : Disk → Prop} {trial : Trial} (h : trial.Always good)
    (himp : ∀ {disk}, good disk → good' disk) : trial.Always good' :=
  fun disk hdisk => himp (h disk hdisk)

theorem Always.now {good : Disk → Prop} {trial : Trial} (h : trial.Always good) : good trial.disk :=
  h _ List.mem_cons_self

theorem look_disks {α : Type} (trial : Trial) (found : Except DiskError α) :
    (trial.look found).2.disks = trial.disks := by
  unfold look
  cases trial.fate 0 <;> rfl

/-- After an operation there is one disk more: the same again, or the one that all of the operation
or a part of it leaves. -/
theorem perform_cases (trial : Trial) (action : DiskAction) :
    ∃ disk, (trial.perform action).2.disk = disk ∧
      (trial.perform action).2.disks = disk :: trial.disks ∧
      (disk = trial.disk ∨ ∃ count, trial.disk.perform (action.firstPart count) = .ok disk) ∧
      ((trial.perform action).1 = .ok () → trial.disk.perform action = .ok disk) := by
  refine ⟨_, rfl, ?_⟩
  unfold perform
  cases trial.fate 0 with
  | done =>
    refine ⟨rfl, ?_⟩
    obtain ⟨after, hafter, htried⟩ | ⟨e, htried⟩ := trial.disk.tryPerform_eq action
    · simp only [htried]
      obtain ⟨count, hcount⟩ := action.firstPart_eq
      refine ⟨.inr ⟨count, ?_⟩, fun _ => hafter⟩
      rw [hcount]
      exact hafter
    · simp only [htried]
      exact ⟨.inl trivial, nofun⟩
  | refused e => exact ⟨rfl, .inl rfl, nofun⟩
  | broken count e =>
    refine ⟨rfl, ?_, nofun⟩
    obtain ⟨after, hafter, htried⟩ | ⟨e, htried⟩ := trial.disk.tryPerform_eq (action.firstPart count)
    · simp only [htried]
      exact .inr ⟨count, hafter⟩
    · simp only [htried]
      exact .inl trivial

theorem always_perform {good : Disk → Prop} {action : DiskAction} {trial : Trial}
    (hpart : ∀ {after count}, trial.disk.perform (action.firstPart count) = .ok after → good after)
    (h : trial.Always good) : (trial.perform action).2.Always good := by
  obtain ⟨disk, -, hdisks, hdisk, -⟩ := trial.perform_cases action
  intro other hother
  rw [hdisks] at hother
  rcases List.mem_cons.mp hother with rfl | hpast
  · rcases hdisk with rfl | ⟨count, hcount⟩
    · exact h _ List.mem_cons_self
    · exact hpart hcount
  · exact h _ hpast

/-- An operation that comes to `goal`, and whose parts leave disks that are good, whatever fails. -/
theorem ends_perform {good start goal : Disk → Prop} {action : DiskAction}
    (hpart : ∀ {before after count}, start before →
      before.perform (action.firstPart count) = .ok after → good after)
    (h : ∀ {before after}, start before → before.perform action = .ok after → goal after) :
    Ends (Stands good start) (Stands good goal) (Always good)
      (FileAccess.perform action : StateM Trial _) where
  ok := by
    rintro trial ⟨hgood, hstart⟩ hok
    refine ⟨always_perform (hpart hstart) hgood, ?_⟩
    obtain ⟨disk, hdisk, -, -, hperformed⟩ := trial.perform_cases action
    exact h hstart (hdisk ▸ hperformed hok)
  error := fun ⟨hgood, hstart⟩ _ => always_perform (hpart hstart) hgood

theorem keeps_createDirs {good : Disk → Prop}
    (h : ∀ {before after path}, good before → before.createDir path = .ok after → good after)
    (path : String) : Keeps (Always good) (FileAccess.createDirs path : StateM Trial _) := by
  refine FileAccess.keeps_createDirs (fun path trial hgood => ?_) (fun path trial hgood => ?_) path
  · intro disk hdisk
    exact hgood disk (look_disks trial _ ▸ hdisk)
  · exact always_perform (h (hgood _ List.mem_cons_self)) hgood

end Trial

/-! ## A file and its draft -/

open ScriptHost.Path (EndsWith IsName)
open FileAccess (draftPath replaceFile)

variable {path name draft : String} {bytes : ByteArray} {before now after : Disk} {place : Place}

/-- What a disk has become without a change to its files, except to those with the name of a draft. -/
structure Untouched (draft : String) (before now : Disk) : Prop where
  grows : before.Grows now
  files : ∀ {place : Place}, place.getLast? ≠ some draft → now.file? place = before.file? place

/-- The bytes in the draft of a file. -/
structure Drafted (path draft : String) (bytes : ByteArray) (before now : Disk) : Prop where
  untouched : Untouched draft before now
  held : ∃ dir, now.target (draftPath path) = .ok (dir, .name draft) ∧
    now.file? (dir ++ [draft]) = some bytes

/-- A path leads to a file with certain bytes, and the files at other places are untouched. -/
structure Replaced (path draft : String) (bytes : ByteArray) (place : Place) (before now : Disk) :
    Prop where
  grows : before.Grows now
  stat : now.stat path = .ok (place, .file bytes)
  others : ∀ {other : Place}, other ≠ place → other.getLast? ≠ some draft →
    now.file? other = before.file? other

/-- A file is as it was, or replaced. -/
def Whole (path draft : String) (bytes : ByteArray) (before now : Disk) : Prop :=
  Untouched draft before now ∨ ∃ place, Replaced path draft bytes place before now

theorem Untouched.refl (draft : String) (disk : Disk) : Untouched draft disk disk :=
  ⟨.refl disk, fun _ => rfl⟩

theorem endsWith_draftPath (h : EndsWith path name) (hdraft : IsName (name ++ ".tmp")) :
    EndsWith (draftPath path) (name ++ ".tmp") := by
  rw [draftPath, h.fileName?_eq]
  exact h.withFileName hdraft

/-! ## Each operation -/

theorem Untouched.createDir (h : Untouched draft before now) (hmade : now.createDir path = .ok after) :
    Untouched draft before after := by
  obtain ⟨dir, last, hfree, rfl⟩ := Disk.createDir_ok hmade
  have hplace : dir ++ [last] ≠ [] := by simp
  refine ⟨h.grows.trans (Disk.grows_set hplace ?_), fun {place} hother => ?_⟩
  · rw [hfree]
    nofun
  · rw [← h.files hother]
    by_cases hnew : place = dir ++ [last]
    · rw [Disk.file?, Disk.file?, Disk.node?_set hplace, if_pos hnew, hnew, hfree]
    · exact Disk.file?_congr (by rw [Disk.node?_set hplace, if_neg hnew])

theorem place_ne_draft {dir : Place} (h : place.getLast? ≠ some draft) : place ≠ dir ++ [draft] := by
  rintro rfl
  exact h List.getLast?_concat

theorem Untouched.write {dir : Place} (h : Untouched draft before now)
    (hdraft : now.target (draftPath path) = .ok (dir, .name draft))
    (hfree : now.node? (dir ++ [draft]) ≠ some .dir) :
    Drafted path draft bytes before (now.set (dir ++ [draft]) (.file bytes)) := by
  have hplace : dir ++ [draft] ≠ [] := by simp
  have hgrows : now.Grows (now.set (dir ++ [draft]) (.file bytes)) := Disk.grows_set hplace hfree
  refine ⟨⟨h.grows.trans hgrows, fun hother => ?_⟩, dir, hgrows.target hdraft, ?_⟩
  · rw [← h.files hother]
    exact Disk.file?_congr (by rw [Disk.node?_set hplace, if_neg (place_ne_draft hother)])
  · rw [Disk.file?_eq_some, Disk.node?_set hplace, if_pos rfl]

theorem Drafted.rename (hpath : EndsWith path name) (h : Drafted path draft bytes before now)
    (hdone : now.rename (draftPath path) path = .ok after) :
    ∃ place, Replaced path draft bytes place before after := by
  obtain ⟨dir, htarget, hbytes⟩ := h.held
  obtain ⟨fromDir, fromName, toDir, toName, moved, hfrom, hto, hmoved, hfree, rfl⟩ :=
    Disk.rename_ok hdone
  obtain ⟨rfl, rfl⟩ : dir = fromDir ∧ draft = fromName := by
    simpa using htarget.symm.trans hfrom
  cases Disk.target_name hpath hto
  obtain rfl : bytes = moved := Option.some.inj (hbytes.symm.trans (Disk.file?_eq_some.mpr hmoved))
  have hsource : dir ++ [draft] ≠ [] := by simp
  have hplace : toDir ++ [name] ≠ [] := by simp
  have hgrows := Disk.grows_move hsource hplace hmoved hfree
  refine ⟨toDir ++ [name], h.untouched.grows.trans hgrows, ?_, fun {other} hother hkept => ?_⟩
  · refine (Disk.stat_eq_ok hpath).mpr ⟨toDir, hgrows.target hto, rfl, ?_⟩
    rw [Disk.node?_move hsource hplace hmoved, if_pos rfl]
  · rw [← h.untouched.files hkept]
    exact Disk.file?_congr
      (by rw [Disk.node?_move hsource hplace hmoved, if_neg hother, if_neg (place_ne_draft hkept)])

section

variable (hdraft : EndsWith (draftPath path) draft)

include hdraft

theorem Untouched.createFile (h : Untouched draft before now)
    (hmade : now.createFile (draftPath path) = .ok after) :
    Drafted path draft .empty before after := by
  obtain ⟨dir, last, htarget, hfree, rfl⟩ := Disk.createFile_ok hmade
  cases Disk.target_name hdraft htarget
  exact h.write htarget hfree

theorem Drafted.append {more : ByteArray} (h : Drafted path draft bytes before now)
    (hdone : now.append (draftPath path) more = .ok after) :
    Drafted path draft (bytes ++ more) before after := by
  obtain ⟨dir, htarget, hbytes⟩ := h.held
  obtain ⟨place, held, hstat, rfl⟩ := Disk.append_ok hdone
  obtain ⟨dir', htarget', rfl, hheld⟩ := (Disk.stat_eq_ok hdraft).mp hstat
  obtain ⟨rfl⟩ : (dir, Disk.PathEnd.name draft) = (dir', .name draft) :=
    Except.ok.inj (htarget.symm.trans htarget')
  rw [Disk.file?_eq_some, hheld] at hbytes
  cases hbytes
  refine h.untouched.write htarget ?_
  rw [hheld]
  nofun

theorem Drafted.append_empty {more : ByteArray} (h : Drafted path draft .empty before now)
    (hdone : now.append (draftPath path) more = .ok after) : Drafted path draft more before after :=
  ByteArray.empty_append (b := more) ▸ h.append hdraft hdone

/-! ## All of them -/

theorem ends_replaceFile (hpath : EndsWith path name) :
    Ends (Untouched draft before) (fun now => ∃ place, Replaced path draft bytes place before now)
      (Untouched draft before) (replaceFile path bytes : StateM Disk _) := by
  refine FileAccess.ends_performAll_cons (Drafted path draft .empty before) ?_ <|
    FileAccess.ends_performAll_cons (Drafted path draft bytes before) ?_ <|
    FileAccess.ends_performAll_cons (Drafted path draft bytes before) ?_ <|
    FileAccess.ends_performAll_cons _ ?_ FileAccess.ends_performAll_nil
  · exact Disk.ends_perform id fun h hdone => h.createFile hdraft hdone
  · exact Disk.ends_perform Drafted.untouched fun h hdone => h.append_empty hdraft hdone
  · exact Disk.ends_perform Drafted.untouched fun h hdone => Disk.sync_ok hdone ▸ h
  · exact Disk.ends_perform Drafted.untouched fun h hdone => h.rename hpath hdone

/-- A file is whole at any time while it is replaced, whatever fails. -/
theorem ends_replaceFile_trial (hpath : EndsWith path name) :
    Ends (Trial.Stands (Whole path draft bytes before) (Untouched draft before))
      (Trial.Stands (Whole path draft bytes before)
        fun now => ∃ place, Replaced path draft bytes place before now)
      (Trial.Always (Whole path draft bytes before)) (replaceFile path bytes : StateM Trial _) := by
  let stage (held : ByteArray) : Trial → Prop :=
    Trial.Stands (Whole path draft bytes before) (Drafted path draft held before)
  refine FileAccess.ends_performAll_cons (stage .empty) ?_ <|
    FileAccess.ends_performAll_cons (stage bytes) ?_ <|
    FileAccess.ends_performAll_cons (stage bytes) ?_ <|
    FileAccess.ends_performAll_cons _ ?_ FileAccess.ends_performAll_nil
  · exact Trial.ends_perform (fun h hdone => .inl (h.createFile hdraft hdone).untouched)
      fun h hdone => h.createFile hdraft hdone
  -- As long as bytes are missing, it is the draft that they are missing from.
  · exact Trial.ends_perform (fun h hdone => .inl (h.append hdraft hdone).untouched)
      fun h hdone => h.append_empty hdraft hdone
  · exact Trial.ends_perform (fun h hdone => .inl (Disk.sync_ok hdone ▸ h.untouched))
      fun h hdone => Disk.sync_ok hdone ▸ h
  · exact Trial.ends_perform (fun h hdone => .inr (h.rename hpath hdone))
      fun h hdone => h.rename hpath hdone

end

theorem keeps_replaceFile {made : Disk} :
    Keeps (fun now : Disk => now.Grows made) (replaceFile path bytes : StateM Disk _) := by
  refine FileAccess.keeps_performAll fun action haction => ?_
  refine (Disk.ends_perform id fun h hdone => (Disk.grows_back ?_ hdone).trans h).keeps
  rintro other rfl
  simp [FileAccess.replaceActions] at haction

/-! ## What is read of a file -/

theorem Disk.contents_eq_ok {disk : Disk} :
    disk.contents path = .ok bytes ↔ ∃ place, disk.stat path = .ok (place, .file bytes) := by
  rw [Disk.contents, Disk.bind_eq_ok]
  constructor
  · rintro ⟨⟨place, node⟩, hstat, hnode⟩
    cases node with
    | dir => cases hnode
    | file held =>
      cases hnode
      exact ⟨place, hstat⟩
  · rintro ⟨place, hstat⟩
    exact ⟨_, hstat, rfl⟩

theorem Untouched.stat (h : Untouched draft before now) (hpath : EndsWith path name)
    (hname : name ≠ draft) (hstat : before.stat path = .ok (place, .file bytes)) :
    now.stat path = .ok (place, .file bytes) := by
  obtain ⟨dir, -, rfl, hbytes⟩ := (Disk.stat_eq_ok hpath).mp hstat
  refine h.grows.stat hpath hstat ?_
  rw [h.files (by simpa using hname)]
  exact Disk.file?_eq_some.mpr hbytes

/-- What readers find at any time while a file is replaced. -/
structure ReadsWhole (path draft : String) (bytes : ByteArray) (before now : Disk) : Prop where
  old : ∀ {held}, before.contents path = .ok held →
    now.contents path = .ok held ∨ now.contents path = .ok bytes
  /-- What is found where the path led to nothing is new, or was at its place before. -/
  new : ∀ {place held}, now.stat path = .ok (place, .file held) →
    held = bytes ∨ before.file? place = some held
  others : ∀ {place held}, before.file? place = some held → place.getLast? ≠ some draft →
    now.file? place = some held ∨ now.stat path = .ok (place, .file bytes)

theorem Untouched.readsWhole (h : Untouched draft before now) (hpath : EndsWith path name)
    (hname : name ≠ draft) : ReadsWhole path draft bytes before now where
  old := by
    intro held hold
    obtain ⟨place, hstat⟩ := Disk.contents_eq_ok.mp hold
    exact .inl (Disk.contents_eq_ok.mpr ⟨place, h.stat hpath hname hstat⟩)
  new := by
    intro place held hheld
    obtain ⟨dir, -, rfl, hnode⟩ := (Disk.stat_eq_ok hpath).mp hheld
    have hkept : now.file? (dir ++ [name]) = before.file? (dir ++ [name]) :=
      h.files (by simpa using hname)
    exact .inr (hkept ▸ Disk.file?_eq_some.mpr hnode)
  others := fun hheld hplace => .inl ((h.files hplace).trans hheld)

theorem Replaced.readsWhole (h : Replaced path draft bytes place before now) :
    ReadsWhole path draft bytes before now where
  old := fun _ => .inr (Disk.contents_eq_ok.mpr ⟨place, h.stat⟩)
  new := by
    intro other held hheld
    cases h.stat.symm.trans hheld
    exact .inl rfl
  others := by
    intro other held hheld hother
    by_cases hsame : other = place
    · exact .inr (hsame ▸ h.stat)
    · exact .inl ((h.others hsame hother).trans hheld)

theorem Whole.readsWhole (h : Whole path draft bytes before now) (hpath : EndsWith path name)
    (hname : name ≠ draft) : ReadsWhole path draft bytes before now := by
  obtain h | ⟨place, h⟩ := h
  · exact h.readsWhole hpath hname
  · exact h.readsWhole

end ScriptHost
