import ScriptHost.Proofs.Disk.Replaced
import ScriptHost.Proofs.Settings.ReadBack
import ScriptHost.Settings.File
/-!
# Settings that are kept

What loading and saving settings leave on a disk. Settings that are found are not touched, and the
settings file is whole at any time while settings are saved. A file that the path leads to only after
the directories have been made is not found, and is lost to the defaults (`Settings.Unveiled`).
-/

set_option autoImplicit false

namespace ScriptHost

open ScriptHost.Path (EndsWith IsName)

/-- The name of the draft of the settings file. -/
def settingsDraft : String := settingsFile ++ ".tmp"

theorem endsWith_settingsPath (dir : String) : EndsWith (settingsPath dir) settingsFile :=
  Path.endsWith_join dir ⟨by decide, by decide, by decide, by decide⟩

theorem endsWith_settingsDraft (dir : String) :
    EndsWith (FileAccess.draftPath (settingsPath dir)) settingsDraft :=
  endsWith_draftPath (endsWith_settingsPath dir) ⟨by decide, by decide, by decide, by decide⟩

theorem settingsFile_ne_draft : settingsFile ≠ settingsDraft := by decide

namespace Settings

variable {σ : Type} {dir : String} {disk : Disk} {settings : Settings}

/-! ## Saving -/

theorem ends_save [FileAccess (StateM σ)] {start middle goal failed : σ → Prop}
    (hdirs : Ends start middle failed (FileAccess.createDirs dir : StateM σ _))
    (hfile : Ends middle goal failed
      (FileAccess.replaceFile (settingsPath dir) settings.toText.toUTF8 : StateM σ _)) :
    Ends start goal failed (save dir settings : StateM σ _) :=
  hdirs.bind (hfile.bind .success fun _ => .failure _) fun _ => .failure _

/-- The disk with the directories for settings. -/
def made (dir : String) (disk : Disk) : Disk :=
  ((FileAccess.createDirs dir : StateM Disk _).run disk).2

theorem untouched_made (dir : String) (disk : Disk) : Untouched settingsDraft disk (made dir disk) :=
  Disk.keeps_createDirs Untouched.createDir dir disk (.refl _ disk)

theorem ends_save_disk (dir : String) (disk : Disk) (settings : Settings) :
    Ends (fun before => before = disk)
      (fun after => (∃ place, Replaced (settingsPath dir) settingsDraft settings.toText.toUTF8 place
        (made dir disk) after) ∧ after.Grows (made dir disk))
      (fun after => Untouched settingsDraft (made dir disk) after)
      (save dir settings : StateM Disk _) := by
  have hdirs : Ends (fun before => before = disk) (fun after => after = made dir disk)
      (fun after => Untouched settingsDraft (made dir disk) after)
      (FileAccess.createDirs dir : StateM Disk _) := by
    constructor
    · rintro _ rfl -
      rfl
    · rintro _ _ rfl -
      exact .refl _ _
  refine ends_save hdirs (((ends_replaceFile (endsWith_settingsDraft dir)
    (endsWith_settingsPath dir)).and keeps_replaceFile).imp ?_ (fun h => h) fun h => h)
  rintro _ rfl
  exact ⟨.refl _ _, .refl _⟩

/-- The settings file is whole at any time while settings are saved, whatever fails. -/
theorem ends_save_trial (dir : String) (disk : Disk) (settings : Settings) :
    Ends (Trial.Always (Untouched settingsDraft disk))
      (Trial.Stands (Whole (settingsPath dir) settingsDraft settings.toText.toUTF8 disk) fun now =>
        ∃ place, Replaced (settingsPath dir) settingsDraft settings.toText.toUTF8 place disk now)
      (Trial.Always (Whole (settingsPath dir) settingsDraft settings.toText.toUTF8 disk))
      (save dir settings : StateM Trial _) := by
  have hdirs : Keeps (Trial.Always (Untouched settingsDraft disk))
      (FileAccess.createDirs dir : StateM Trial _) := Trial.keeps_createDirs Untouched.createDir dir
  refine ends_save (hdirs.ends.imp id ?_ ?_)
    (ends_replaceFile_trial (endsWith_settingsDraft dir) (endsWith_settingsPath dir))
  · exact fun h => ⟨h.imp .inl, h.now⟩
  · exact fun h => h.imp .inl

/-! ## Loading -/

theorem readText_of_missing {path : String} (h : disk.kind? path = none) :
    ∃ e, disk.readText path = .error e := by
  unfold Disk.kind? at h
  cases hstat : disk.stat path with
  | ok found =>
    rw [hstat] at h
    cases h
  | error e => exact ⟨e, by rw [Disk.readText, Disk.contents, hstat]; rfl⟩

/-- The settings that a disk has in a directory. -/
def held? (dir : String) (disk : Disk) : Option Settings :=
  (disk.readText (settingsPath dir)).toOption.bind ofText?

theorem held?_of_readText {text : String} (h : disk.readText (settingsPath dir) = .ok text) :
    held? dir disk = ofText? text := by
  rw [held?, h]
  rfl

theorem held?_of_missing (h : disk.kind? (settingsPath dir) = none) : held? dir disk = none := by
  obtain ⟨e, he⟩ := readText_of_missing h
  rw [held?, he]
  rfl

theorem run_leads (path : String) (disk : Disk) :
    (FileAccess.leads path : StateM Disk _).run disk = pure ((disk.kind? path).isSome, disk) :=
  rfl

theorem run_readText (path : String) (disk : Disk) :
    (FileAccess.readText path : StateM Disk _).run disk = pure (disk.readText path, disk) :=
  rfl

theorem run_load (dir : String) (disk : Disk) :
    (load dir : StateM Disk _).run disk = pure (held? dir disk, disk) := by
  rw [load, StateT.run_bind, run_leads, pure_bind]
  cases hfound : disk.kind? (settingsPath dir) with
  | none =>
    rw [held?_of_missing hfound]
    rfl
  | some kind =>
    dsimp only
    rw [if_pos Option.isSome_some, StateT.run_bind, run_readText, pure_bind, held?]
    cases disk.readText (settingsPath dir) <;> rfl

theorem run_loadOrInit_of_found (h : (disk.kind? (settingsPath dir)).isSome) :
    (loadOrInit dir : StateM Disk _).run disk = pure (.ok ((held? dir disk).getD {}), disk) := by
  rw [loadOrInit, StateT.run_bind, run_load, pure_bind]
  cases held? dir disk with
  | some settings => rfl
  | none =>
    dsimp only
    rw [StateT.run_bind, run_leads, pure_bind]
    dsimp only
    rw [if_pos h]
    rfl

theorem run_loadOrInit_of_missing (h : disk.kind? (settingsPath dir) = none) :
    (loadOrInit dir : StateM Disk _).run disk =
      pure (((save dir {} : StateM Disk _).run disk).1.map fun _ => {},
        ((save dir {} : StateM Disk _).run disk).2) := by
  rw [loadOrInit, StateT.run_bind, run_load, pure_bind, held?_of_missing h]
  dsimp only
  rw [StateT.run_bind, run_leads, pure_bind, h]
  dsimp only
  rw [if_neg (by simp), StateT.run_bind]
  rcases (save dir {} : StateM Disk _).run disk with ⟨_ | _, after⟩ <;> rfl

/-- The bytes of the settings file that is made where there is none. -/
def freshBytes : ByteArray := ({} : Settings).toText.toUTF8

section

variable {after : Disk} {place : Place} {bytes : ByteArray}

/-- Where there are no settings, a call that succeeds has saved the preset ones. -/
theorem saved_of_fresh (h : disk.kind? (settingsPath dir) = none)
    (hrun : (loadOrInit dir : StateM Disk _).run disk = (.ok settings, after)) :
    settings = {} ∧
      (∃ place, Replaced (settingsPath dir) settingsDraft freshBytes place (made dir disk) after) ∧
      after.Grows (made dir disk) := by
  rw [run_loadOrInit_of_missing h] at hrun
  have hsave := ends_save_disk dir disk {}
  cases houtcome : ((save dir {} : StateM Disk _).run disk).1 with
  | error e =>
    rw [houtcome] at hrun
    cases hrun
  | ok =>
    rw [houtcome] at hrun
    cases hrun
    exact ⟨rfl, hsave.ok rfl houtcome⟩

/-- A path that leads to nothing leads to the file at this place once the directories on it have been
made. -/
def Unveiled (dir : String) (disk : Disk) (place : Place) : Prop :=
  disk.kind? (settingsPath dir) = none ∧
    ∃ bytes, (made dir disk).stat (settingsPath dir) = .ok (place, .file bytes)

theorem lost_of_unveiled (h : Unveiled dir disk place)
    (hrun : (loadOrInit dir : StateM Disk _).run disk = (.ok settings, after)) :
    after.file? place = some freshBytes := by
  obtain ⟨hmissing, bytes, hstat⟩ := h
  obtain ⟨-, ⟨newPlace, hreplaced⟩, -⟩ := saved_of_fresh hmissing hrun
  obtain rfl := hreplaced.grows.stat_place (endsWith_settingsPath dir) hstat hreplaced.stat
  exact Disk.file?_eq_some.mpr (Disk.stat_node? hreplaced.stat)

section

variable (hheld : disk.file? place = some bytes) (hplace : place.getLast? ≠ some settingsDraft)

include hheld hplace

theorem kept_of_failed {e : SettingsError}
    (hrun : (loadOrInit dir : StateM Disk _).run disk = (.error e, after)) :
    after.file? place = some bytes := by
  cases hfound : disk.kind? (settingsPath dir) with
  | some kind =>
    rw [run_loadOrInit_of_found (hfound ▸ rfl)] at hrun
    cases hrun
  | none =>
    rw [run_loadOrInit_of_missing hfound] at hrun
    cases houtcome : ((save dir {} : StateM Disk _).run disk).1 with
    | ok =>
      rw [houtcome] at hrun
      cases hrun
    | error e =>
      rw [houtcome] at hrun
      cases hrun
      have hsame := (ends_save_disk dir disk {}).error rfl houtcome
      exact (hsame.files hplace).trans (((untouched_made dir disk).files hplace).trans hheld)

theorem kept_of_not_unveiled (h : ¬ Unveiled dir disk place)
    (hrun : (loadOrInit dir : StateM Disk _).run disk = (.ok settings, after)) :
    after.file? place = some bytes := by
  cases hfound : disk.kind? (settingsPath dir) with
  | some kind =>
    rw [run_loadOrInit_of_found (hfound ▸ rfl)] at hrun
    cases hrun
    exact hheld
  | none =>
    obtain ⟨-, ⟨newPlace, hreplaced⟩, hback⟩ := saved_of_fresh hfound hrun
    have hmade := ((untouched_made dir disk).files hplace).trans hheld
    -- No directory is made behind those for settings, so the path led to the new place before.
    have hother : place ≠ newPlace := by
      rintro rfl
      obtain ⟨above, htarget, hname, -⟩ :=
        (Disk.stat_eq_ok (endsWith_settingsPath dir)).mp hreplaced.stat
      refine h ⟨hfound, bytes, (Disk.stat_eq_ok (endsWith_settingsPath dir)).mpr ?_⟩
      exact ⟨above, hback.target htarget, hname, Disk.file?_eq_some.mp hmade⟩
    exact (hreplaced.others hother hplace).trans hmade

end

end

/-! ## Loading again -/

theorem readText_of_contents {path text : String} (h : disk.contents path = .ok text.toUTF8) :
    disk.readText path = .ok text := by
  have htext : String.fromUTF8? text.toUTF8 = some text := dif_pos text.isValidUTF8
  simp only [Disk.readText, h, bind, Except.bind, htext]

theorem run_replicate {α : Type} {steps : StateM σ α} {s : σ} {a : α} (h : steps.run s = (a, s))
    (calls : Nat) :
    ((List.replicate calls ()).mapM fun _ => steps).run s = (List.replicate calls a, s) := by
  induction calls with
  | zero => rfl
  | succ calls ih =>
    have hrest : (do
        let others ← (List.replicate calls ()).mapM fun _ => steps
        return a :: others : StateM σ _).run s = (a :: List.replicate calls a, s) := by
      rw [StateT.run_bind, ih]
      rfl
    rw [List.replicate_succ, List.mapM_cons, StateT.run_bind, h]
    exact hrest

/-! ## What becomes of files -/

/-- How settings are saved in a directory, whatever fails. -/
structure SavesWhole (dir : String) (before : Disk) (settings : Settings)
    (result : Except SettingsError Unit × Trial) : Prop where
  /-- At any time the settings file holds all that it held or all that is new. -/
  always : ∀ now ∈ result.2.disks,
    ReadsWhole (settingsPath dir) settingsDraft settings.toText.toUTF8 before now
  /-- Settings that are saved can be loaded. -/
  saved : result.1 = .ok () →
    result.2.disk.contents (settingsPath dir) = .ok settings.toText.toUTF8 ∧
      (settings.Fits → held? dir result.2.disk = some settings)

/-- What becomes of the files on a disk when settings in a directory are loaded and saved. -/
structure KeepsFiles (dir : String) (disk : Disk) : Prop where
  /-- What is found is not touched, whether or not it can be read. -/
  found : (disk.kind? (settingsPath dir)).isSome →
    (loadOrInit dir : StateM Disk _).run disk = (.ok ((held? dir disk).getD {}), disk)
  /-- Where nothing is found, the preset settings are written, and then nothing more. -/
  fresh : ∀ {settings after}, disk.kind? (settingsPath dir) = none →
    (loadOrInit dir : StateM Disk _).run disk = (.ok settings, after) →
    settings = {} ∧ after.readText (settingsPath dir) = .ok ({} : Settings).toText ∧
      (load dir : StateM Disk _).run after = (some {}, after) ∧
      ∀ calls, ((List.replicate calls ()).mapM fun _ => (loadOrInit dir : StateM Disk _)).run after =
        (List.replicate calls (.ok {}), after)
  /-- A file is kept unless it comes in sight only when the directories are made. -/
  kept_iff : ∀ {place bytes}, disk.file? place = some bytes → place.getLast? ≠ some settingsDraft →
    (((loadOrInit dir : StateM Disk _).run disk).2.file? place = some bytes ↔
      bytes = freshBytes ∨ (∃ e, ((loadOrInit dir : StateM Disk _).run disk).1 = .error e) ∨
        ¬ Unveiled dir disk place)
  /-- Saving is all or nothing, whatever becomes of the operations. -/
  saving : ∀ settings fate,
    SavesWhole dir disk settings ((save dir settings : StateM Trial _).run { disk, fate })

section

variable (held : ByteArray)

/-- A disk with nothing but a settings file in the current directory. -/
def looseSettings : Disk where
  entries := [(["settings.json"], .file held)]

/-- The same disk with a directory. -/
def looseSettingsAndDir : Disk where
  entries := [(["settings.json"], .file held), (["missing"], .dir)]

theorem pieces_up : Path.pieces "missing/.." = ["missing", ".."] := by
  rw [Path.pieces_eq]
  decide

theorem pieces_up_settings :
    Path.pieces "missing/../settings.json" = ["missing", "..", "settings.json"] := by
  rw [Path.pieces_eq]
  decide

theorem run_createDirs_loose : (FileAccess.createDirs "missing/.." : StateM Disk _).run
    (looseSettings held) = (.ok (), looseSettingsAndDir held) := by
  have habove : Path.ancestors "missing/.." = ["missing/..", "missing"] := by
    simp only [Path.ancestors, Path.parts, pieces_up]
    rfl
  have hname : Path.pieces "missing" = ["missing"] := by
    rw [Path.pieces_eq]
    decide
  have hfirst : (FileAccess.ensureDir "missing/.." : StateM Disk _).run (looseSettings held) =
      (.error .notFound, looseSettings held) := by
    rw [Disk.run_ensureDir]
    simp only [Disk.createDir, Disk.target, Disk.kind?, Disk.stat, Disk.names, pieces_up]
    rfl
  have hmade : (FileAccess.ensureDir "missing" : StateM Disk _).run (looseSettings held) =
      (.ok (), looseSettingsAndDir held) := by
    rw [Disk.run_ensureDir]
    simp only [Disk.createDir, Disk.target, Disk.names, hname]
    rfl
  have hagain : (FileAccess.ensureDir "missing/.." : StateM Disk _).run (looseSettingsAndDir held) =
      (.ok (), looseSettingsAndDir held) := by
    rw [Disk.run_ensureDir]
    simp only [Disk.createDir, Disk.target, Disk.kind?, Disk.stat, Disk.names, pieces_up]
    rfl
  rw [FileAccess.createDirs, habove, FileAccess.createFirst, StateT.run_bind, hfirst]
  change StateT.run (FileAccess.createFirst ["missing"] >>= _) (looseSettings held) = _
  rw [StateT.run_bind, FileAccess.createFirst, StateT.run_bind, hmade]
  exact hagain

theorem run_replaceFile_loose (bytes : ByteArray) :
    ∃ after, (FileAccess.replaceFile "missing/../settings.json" bytes : StateM Disk _).run
      (looseSettingsAndDir held) = (.ok (), after) := by
  have hdraft : FileAccess.draftPath "missing/../settings.json" = "missing/../settings.json.tmp" := by
    simp only [FileAccess.draftPath, Path.withFileName, Path.fileName?, Path.parts, pieces_up_settings]
    rfl
  have hpieces : Path.pieces "missing/../settings.json.tmp" =
      ["missing", "..", "settings.json.tmp"] := by
    rw [Path.pieces_eq]
    decide
  let drafted (draft : ByteArray) : Disk :=
    (looseSettingsAndDir held).set ["settings.json.tmp"] (.file draft)
  have hcreate : (looseSettingsAndDir held).perform (.createFile "missing/../settings.json.tmp") =
      .ok (drafted .empty) := by
    simp only [Disk.perform, Disk.createFile, Disk.target, Disk.names, hpieces]
    rfl
  have happend : (drafted .empty).perform (.append "missing/../settings.json.tmp" bytes) =
      .ok (drafted (.empty ++ bytes)) := by
    simp only [Disk.perform, Disk.append, Disk.stat, Disk.names, hpieces]
    rfl
  have hsync : (drafted (.empty ++ bytes)).perform (.sync "missing/../settings.json.tmp") =
      .ok (drafted (.empty ++ bytes)) := by
    simp only [Disk.perform, Disk.contents, Disk.stat, Disk.names, hpieces]
    rfl
  have hrename : (drafted (.empty ++ bytes)).perform
      (.rename "missing/../settings.json.tmp" "missing/../settings.json") =
      .ok ((drafted (.empty ++ bytes)).move ["settings.json.tmp"] ["settings.json"] (.empty ++ bytes)) := by
    simp only [Disk.perform, Disk.rename, Disk.target, Disk.names, hpieces, pieces_up_settings]
    rfl
  rw [FileAccess.replaceFile, FileAccess.replaceActions, hdraft, Disk.run_performAll_cons hcreate,
    Disk.run_performAll_cons happend, Disk.run_performAll_cons hsync, Disk.run_performAll_cons hrename]
  exact ⟨_, rfl⟩

theorem missing_loose :
    (looseSettings held).kind? (settingsPath "missing/..") = none := by
  change (looseSettings held).kind? "missing/../settings.json" = none
  simp only [Disk.kind?, Disk.stat, Disk.names, pieces_up_settings]
  rfl

/-- Making the directory on the path brings the file in sight. -/
theorem unveiled_loose : Unveiled "missing/.." (looseSettings held) ["settings.json"] := by
  refine ⟨missing_loose held, held, ?_⟩
  rw [made, run_createDirs_loose]
  change (looseSettingsAndDir held).stat "missing/../settings.json" = _
  simp only [Disk.stat, Disk.names, pieces_up_settings]
  rfl

theorem run_loadOrInit_loose : ∃ after,
    (loadOrInit "missing/.." : StateM Disk _).run (looseSettings held) = (.ok {}, after) := by
  obtain ⟨after, hreplaced⟩ := run_replaceFile_loose held freshBytes
  have hsaved : (save "missing/.." {} : StateM Disk _).run (looseSettings held) = (.ok (), after) := by
    rw [save, StateT.run_bind, run_createDirs_loose]
    change StateT.run (FileAccess.replaceFile "missing/../settings.json" freshBytes >>= _) _ = _
    rw [StateT.run_bind, hreplaced]
    rfl
  refine ⟨after, ?_⟩
  rw [run_loadOrInit_of_missing (missing_loose held), hsaved]
  rfl

end

end Settings

end ScriptHost
