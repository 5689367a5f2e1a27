import ScriptHost.Engine.Basic
/-!
# Reading sources

To find the sources of a project, files are read and directories are listed, and nothing is written.
Where that fails, it fails with an error of its own kind.
-/

set_option autoImplicit false

namespace ScriptHost

variable {α β : Type}

/-- The steps leave the disk as it is. -/
def ReadsOnly (steps : StateM Disk α) : Prop :=
  ∀ disk, (steps.run disk).2 = disk

theorem ReadsOnly.pure (a : α) : ReadsOnly (Pure.pure a) :=
  fun _ => rfl

theorem ReadsOnly.bind {steps : StateM Disk α} {next : α → StateM Disk β} (h : ReadsOnly steps)
    (hnext : ∀ a, ReadsOnly (next a)) : ReadsOnly (steps >>= next) := by
  intro disk
  change ((next (steps.run disk).1).run (steps.run disk).2).2 = disk
  rw [h disk]
  exact hnext _ disk

theorem readsOnly_readText (path : String) :
    ReadsOnly (FileAccess.readText path : StateM Disk _) :=
  fun _ => rfl

theorem readsOnly_listDir (path : String) : ReadsOnly (FileAccess.listDir path : StateM Disk _) :=
  fun _ => rfl

theorem readsOnly_isFile (path : String) : ReadsOnly (FileAccess.isFile path : StateM Disk _) :=
  fun _ => rfl

/-- The errors of reading the sources of a project. -/
def EngineError.ofReading : EngineError → Bool
  | .noManifest _ | .invalidManifest .. | .missingSource _ | .unreadable .. => true
  | .notBuilt _ | .missingEntry _ | .stopped _ | .wrongMode .. => false

namespace Project

theorem readsOnly_firstFile : ∀ paths : List String,
    ReadsOnly (firstFile paths : StateM Disk _)
  | [] => .pure none
  | path :: rest => by
    rw [firstFile]
    refine (readsOnly_isFile path).bind fun found => ?_
    split
    · exact .pure _
    · exact readsOnly_firstFile rest

theorem readsOnly_findManifest (dir : String) :
    ReadsOnly (findManifest dir : StateM Disk _) := by
  unfold findManifest
  refine (readsOnly_listDir dir).bind fun listed => ?_
  split
  · exact .pure _
  · exact .pure _
  · refine (readsOnly_firstFile _).bind fun found => ?_
    split <;> exact .pure _

theorem readsOnly_readSource (path : String) :
    ReadsOnly (readSource path : StateM Disk _) := by
  unfold readSource
  refine (readsOnly_readText path).bind fun found => ?_
  split <;> exact .pure _

theorem readsOnly_readListed (dir : String) : ∀ listed : List String,
    ReadsOnly (readListed dir listed : StateM Disk _)
  | [] => .pure _
  | listed :: rest => by
    rw [readListed]
    refine (readsOnly_isFile _).bind fun found => ?_
    split
    · refine (readsOnly_readSource _).bind fun source => ?_
      split
      · exact .pure _
      · refine (readsOnly_readListed dir rest).bind fun files => ?_
        split <;> exact .pure _
    · exact .pure _

theorem readsOnly_provide (dir : String) : ReadsOnly (provide dir : StateM Disk _) := by
  unfold provide
  refine (readsOnly_findManifest dir).bind fun manifest => ?_
  split
  · exact .pure _
  · refine (readsOnly_readSource _).bind fun source => ?_
    split
    · exact .pure _
    · split
      · exact .pure _
      · refine (readsOnly_readListed dir _).bind fun files => ?_
        split <;> exact .pure _

/-- Whatever the disk holds, the steps come to something good. -/
def ComesTo (steps : StateM Disk α) (good : α → Prop) : Prop :=
  ∀ disk, good (steps.run disk).1

theorem ComesTo.pure {a : α} {good : α → Prop} (h : good a) : ComesTo (Pure.pure a) good :=
  fun _ => h

theorem ComesTo.bind {steps : StateM Disk α} {next : α → StateM Disk β} {first : α → Prop}
    {good : β → Prop} (h : ComesTo steps first) (hnext : ∀ a, first a → ComesTo (next a) good) :
    ComesTo (steps >>= next) good :=
  fun disk => hnext _ (h disk) _

/-- Nothing is asked of what the steps come to. -/
theorem comesTo_anything (steps : StateM Disk α) : ComesTo steps fun _ => True :=
  fun _ => trivial

/-- If it has failed, then with an error of reading. -/
def OnlyReading (result : Except EngineError α) : Prop :=
  ∀ e, result = .error e → e.ofReading = true

theorem onlyReading_ok (a : α) : OnlyReading (.ok a) :=
  nofun

theorem onlyReading_error {e : EngineError} (h : e.ofReading = true) :
    OnlyReading (.error e : Except EngineError α) := by
  intro e' he
  cases he
  exact h

theorem findManifest_onlyReading (dir : String) :
    ComesTo (findManifest dir : StateM Disk _) OnlyReading := by
  unfold findManifest
  refine (comesTo_anything _).bind fun listed _ => ?_
  split
  · exact .pure (onlyReading_error rfl)
  · exact .pure (onlyReading_error rfl)
  · refine (comesTo_anything _).bind fun found _ => ?_
    split
    · exact .pure (onlyReading_ok _)
    · exact .pure (onlyReading_error rfl)

theorem readSource_onlyReading (path : String) :
    ComesTo (readSource path : StateM Disk _) OnlyReading := by
  unfold readSource
  refine (comesTo_anything _).bind fun found _ => ?_
  split
  · exact .pure (onlyReading_ok _)
  · exact .pure (onlyReading_error rfl)

theorem readListed_onlyReading (dir : String) : ∀ listed : List String,
    ComesTo (readListed dir listed : StateM Disk _) OnlyReading
  | [] => .pure (onlyReading_ok _)
  | listed :: rest => by
    rw [readListed]
    refine (comesTo_anything _).bind fun found _ => ?_
    split
    · refine (readSource_onlyReading _).bind fun source hsource => ?_
      split
      · exact .pure (onlyReading_error (hsource _ rfl))
      · refine (readListed_onlyReading dir rest).bind fun files hfiles => ?_
        split
        · exact .pure (onlyReading_error (hfiles _ rfl))
        · exact .pure (onlyReading_ok _)
    · exact .pure (onlyReading_error rfl)

theorem provide_onlyReading (dir : String) :
    ComesTo (provide dir : StateM Disk _) OnlyReading := by
  unfold provide
  refine (findManifest_onlyReading dir).bind fun manifest hmanifest => ?_
  split
  · exact .pure (onlyReading_error (hmanifest _ rfl))
  · refine (readSource_onlyReading _).bind fun source hsource => ?_
    split
    · exact .pure (onlyReading_error (hsource _ rfl))
    · split
      · exact .pure (onlyReading_error rfl)
      · refine (readListed_onlyReading dir _).bind fun files hfiles => ?_
        split
        · exact .pure (onlyReading_error (hfiles _ rfl))
        · exact .pure (onlyReading_ok _)

end Project

namespace Engine

variable {σ : Type}

/-- Where the sources come from depends on the mode only. -/
theorem provide_congr {engine other : Engine} (h : other.mode = engine.mode) :
    (other.provide : StateM Disk _) = engine.provide := by
  unfold provide
  rw [h]

theorem readsOnly_provide (engine : Engine) : ReadsOnly (engine.provide : StateM Disk _) := by
  unfold provide
  split
  · exact .pure _
  · exact Project.readsOnly_provide _

/-- Where there are no sources, the mode offers none, or reading them has failed. -/
theorem provide_error {engine : Engine} {disk : Disk} {e : EngineError}
    (h : ((engine.provide : StateM Disk _).run disk).1 = .error e) :
    (∃ operation mode, e = .wrongMode operation mode) ∨ e.ofReading = true := by
  unfold provide at h
  split at h
  · cases h
    exact .inl ⟨_, _, rfl⟩
  · exact .inr (Project.provide_onlyReading _ disk e h)

/-- To run a project is to run what is on the disk, which stays as it is. -/
theorem run_eq [HasConsole σ] (engine : Engine) (catalog : Catalog σ) (fuel : Nat) (host : σ)
    (disk : Disk) :
    (engine.run catalog fuel host : StateM Disk _).run disk =
      (engine.runProvided catalog fuel ((engine.provide : StateM Disk _).run disk).1 host,
        disk) := by
  have hdisk := engine.readsOnly_provide disk
  refine Prod.ext rfl ?_
  exact hdisk

end Engine

end ScriptHost
