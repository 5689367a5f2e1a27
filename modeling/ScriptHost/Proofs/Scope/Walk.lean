import ScriptHost.Proofs.Computation
import ScriptHost.Proofs.Scope.Declared
import ScriptHost.Scope.Locals
/-!
# What a walk through a body keeps

A walk never forgets an error that it has found, and as long as it has found none, every variable in
scope has one of the slots that the walk has counted. `Resolver.Sound` says of a step of a walk that
it keeps this, that it only fails with errors, and what is right about its answer once the walk has
come to its end without an error. The rules of `Resolver.Sound` follow the ways in which steps are
put together.
-/

set_option autoImplicit false

namespace ScriptHost

namespace Body

/-- Every variable in scope has one of the slots counted. This is not asked of a `wide` body, whose
parameters are more than there can be slots. -/
def Slotted (wide : Prop) (body : Body) : Prop :=
  wide ∨ ∀ scope ∈ body.scopes, ∀ l ∈ scope, l.slot < body.maxSlot

/-- What a walk keeps on its way from one body to another. -/
structure Leads (wide : Prop) (before after : Body) : Prop where
  failed : Failed before.diagnostics → Failed after.diagnostics
  maxSlot : ¬ Failed after.diagnostics → before.maxSlot ≤ after.maxSlot
  slotted : ¬ Failed after.diagnostics → before.Slotted wide → after.Slotted wide

variable {wide : Prop}

/-- Nothing has to be kept where nothing changes. -/
theorem Leads.refl (body : Body) : body.Leads wide body :=
  ⟨id, fun _ => Nat.le_refl _, fun _ h => h⟩

/-- What is kept twice is kept. -/
theorem Leads.trans {a b c : Body} (hab : a.Leads wide b) (hbc : b.Leads wide c) :
    a.Leads wide c where
  failed := fun h => hbc.failed (hab.failed h)
  maxSlot := fun hc =>
    Nat.le_trans (hab.maxSlot fun hb => hc (hbc.failed hb)) (hbc.maxSlot hc)
  slotted := fun hc ha => hbc.slotted hc (hab.slotted (fun hb => hc (hbc.failed hb)) ha)

/-- To say more keeps everything. -/
theorem leads_diagnose (body : Body) (d : Diagnostic) :
    body.Leads wide { body with diagnostics := body.diagnostics.push d } where
  failed := fun h => h.push d
  maxSlot := fun _ => Nat.le_refl _
  slotted := fun _ h => h

/-- To open a scope keeps everything. -/
theorem leads_enter (body : Body) : body.Leads wide body.enter where
  failed := id
  maxSlot := fun _ => Nat.le_refl _
  slotted := by
    rintro - (hwide | hslots)
    · exact .inl hwide
    · refine .inr fun scope hscope l hl => ?_
      obtain rfl | hscope := List.mem_cons.mp hscope
      · cases hl
      · exact hslots scope hscope l hl

/-- A warning keeps everything. -/
theorem leads_warn (body : Body) (level : Nat) (warning : ScopeWarning) (span : Span) :
    body.Leads wide (body.warn level warning span) := by
  unfold warn
  split
  · exact leads_diagnose body _
  · exact .refl body

/-- To close a scope keeps everything. -/
theorem leads_leave (body : Body) (level : Nat) : body.Leads wide (body.leave level) := by
  have hwarnings : ∀ (locals : List Local) (body : Body),
      let warned := locals.foldl
        (fun body l => if l.used then body else body.warn level (.unusedVariable l.name) l.span)
        body
      body.Leads wide warned ∧ warned.maxSlot = body.maxSlot ∧ warned.scopes = body.scopes := by
    intro locals
    induction locals with
    | nil => exact fun body => ⟨.refl body, rfl, rfl⟩
    | cons l rest ih =>
      intro body
      rw [List.foldl_cons]
      split
      · exact ih body
      · obtain ⟨hleads, hmax, hscopes⟩ := ih (body.warn level (.unusedVariable l.name) l.span)
        refine ⟨(leads_warn body level _ _).trans hleads, hmax.trans ?_, hscopes.trans ?_⟩ <;>
        · unfold warn
          split <;> rfl
  unfold leave
  split
  · exact .refl body
  · rename_i scope rest hscopes
    obtain ⟨hleads, hmax, -⟩ := hwarnings scope.reverse body
    refine ⟨hleads.failed, hleads.maxSlot, ?_⟩
    rintro - (hwide | hslots)
    · exact .inl hwide
    · refine .inr fun other hother l hl => ?_
      dsimp only
      rw [hmax]
      exact hslots other (hscopes ▸ List.mem_cons_of_mem scope hother) l hl

/-- To mark a variable changes no slot. -/
theorem slot_markFirst {name : String} {l : Local} {scope : List Local}
    (h : l ∈ markFirst name scope) : ∃ other ∈ scope, other.slot = l.slot := by
  induction scope with
  | nil => cases h
  | cons first rest ih =>
    rw [markFirst] at h
    split at h
    · obtain rfl | h := List.mem_cons.mp h
      · exact ⟨first, List.mem_cons_self, rfl⟩
      · exact ⟨l, List.mem_cons_of_mem first h, rfl⟩
    · obtain rfl | h := List.mem_cons.mp h
      · exact ⟨l, List.mem_cons_self, rfl⟩
      · obtain ⟨other, hother, hslot⟩ := ih h
        exact ⟨other, List.mem_cons_of_mem first hother, hslot⟩

/-- To mark a variable in scopes changes no slot. -/
theorem slot_markIn {name : String} {l : Local} {scope : List Local} {scopes : List (List Local)}
    (hscope : scope ∈ markIn name scopes) (hl : l ∈ scope) :
    ∃ other ∈ scopes, ∃ l' ∈ other, l'.slot = l.slot := by
  induction scopes with
  | nil => cases hscope
  | cons first rest ih =>
    rw [markIn] at hscope
    split at hscope
    · obtain rfl | hscope := List.mem_cons.mp hscope
      · exact ⟨first, List.mem_cons_self, slot_markFirst hl⟩
      · exact ⟨scope, List.mem_cons_of_mem first hscope, l, hl, rfl⟩
    · obtain rfl | hscope := List.mem_cons.mp hscope
      · exact ⟨scope, List.mem_cons_self, l, hl, rfl⟩
      · obtain ⟨other, hother, hslot⟩ := ih hscope
        exact ⟨other, List.mem_cons_of_mem first hother, hslot⟩

/-- To mark a variable keeps everything. -/
theorem leads_markUsed (body : Body) (name : String) : body.Leads wide (body.markUsed name) where
  failed := id
  maxSlot := fun _ => Nat.le_refl _
  slotted := by
    rintro - (hwide | hslots)
    · exact .inl hwide
    · refine .inr fun scope hscope l hl => ?_
      obtain ⟨other, hother, l', hl', hslot⟩ := slot_markIn hscope hl
      exact hslot ▸ hslots other hother l' hl'

/-- A walk from one body to another has made something, which is right once the walk has come to an
end without an error. The slots counted by then are what counts. -/
structure Makes (wide : Prop) (before after : Body) (made : Nat → Prop) : Prop where
  leads : before.Leads wide after
  right : before.Slotted wide → ∀ final, after.Leads wide final → ¬ Failed final.diagnostics →
    made final.maxSlot

/-- What is found in a scope has one of the slots counted. -/
theorem Slotted.found {body : Body} (h : body.Slotted wide) {name : String} {l : Local}
    (hfound : body.findLocal? name = some l) : wide ∨ l.slot < body.maxSlot := by
  obtain hwide | hslots := h
  · exact .inl hwide
  · obtain ⟨scope, hscope, hl⟩ := List.exists_of_findSome?_eq_some hfound
    exact .inr (hslots scope hscope l (List.mem_of_find?_eq_some hl))

end Body

namespace Resolver

variable {wide : Prop} {α β : Type}

/-- A step keeps what a walk keeps, only fails with errors, and its answer is right. -/
structure Sound (wide : Prop) (step : Resolver α) (right : Nat → α → Prop) : Prop where
  ok : ∀ {body after : Body} {a : α}, step body = .ok a after →
    body.Makes wide after fun slots => right slots a
  error : ∀ {body after : Body} {e : Diagnostic}, step body = .error e after → e.isError = true

/-- What follows from what is right is right. -/
theorem Sound.imp {step : Resolver α} {right weaker : Nat → α → Prop}
    (h : Sound wide step right) (himp : ∀ slots a, right slots a → weaker slots a) :
    Sound wide step weaker where
  ok := fun hstep => ⟨(h.ok hstep).leads, fun hslots final hleads hgood =>
    himp _ _ ((h.ok hstep).right hslots final hleads hgood)⟩
  error := h.error

/-- An answer that is right for any number of slots. -/
theorem Sound.pure {a : α} {right : Nat → α → Prop} (h : ∀ slots, right slots a) :
    Sound wide (Pure.pure a : Resolver α) right where
  ok := fun {body _ _} hstep => by
    cases hstep
    exact ⟨.refl body, fun _ final _ _ => h final.maxSlot⟩
  error := fun hstep => by cases hstep

/-- One step after another. What is right about the first answer is right about the second one too,
as both are asked about the same end of the walk. -/
theorem Sound.bind {step : Resolver α} {next : α → Resolver β} {first : Nat → α → Prop}
    {right : Nat → β → Prop} (hstep : Sound wide step first)
    (hnext : ∀ a, Sound wide (next a) fun slots b => first slots a → right slots b) :
    Sound wide (step >>= next) right where
  ok := fun h => by
    obtain ⟨a, middle, hmiddle, hlast⟩ := bind_eq_ok.mp h
    have hfirst := hstep.ok hmiddle
    have hsecond := (hnext a).ok hlast
    refine ⟨hfirst.leads.trans hsecond.leads, fun hslots final hleads hgood => ?_⟩
    have hlater := hsecond.leads.trans hleads
    have hslots' := hfirst.leads.slotted (fun hfailed => hgood (hlater.failed hfailed)) hslots
    exact hsecond.right hslots' final hleads hgood (hfirst.right hslots final hlater hgood)
  error := fun h => by
    obtain hmiddle | ⟨a, middle, hmiddle, hlast⟩ := bind_eq_error.mp h
    · exact hstep.error hmiddle
    · exact (hnext a).error hlast

/-- A step that fails with an error. -/
theorem Sound.fail {e : ScopeError} {span : Span} {right : Nat → α → Prop} :
    Sound wide (Resolver.fail e span) right where
  ok := fun h => by cases h
  error := fun h => by
    cases h
    rfl

/-- Nothing comes after a failure. -/
theorem Sound.fail_bind {e : ScopeError} {span : Span} {next : α → Resolver β}
    {right : Nat → β → Prop} : Sound wide (Resolver.fail e span >>= next) right where
  ok := fun h => by cases h
  error := fun h => by
    cases h
    rfl

/-- A step that looks at the body first. -/
theorem get_bind (next : Body → Resolver α) (body : Body) :
    (MonadState.get >>= next : Resolver α) body = next body body :=
  rfl

/-- Variables that are looked up have slots that are counted. -/
theorem Sound.get : Sound wide (MonadState.get : Resolver Body) fun slots body =>
    ∀ name l, body.findLocal? name = some l → wide ∨ l.slot < slots where
  ok := fun {body _ _} h => by
    cases h
    refine ⟨.refl body, fun hslots final hleads hgood name l hfound => ?_⟩
    exact (hslots.found hfound).imp_right fun h => Nat.lt_of_lt_of_le h (hleads.maxSlot hgood)
  error := fun h => by cases h

/-- A step that changes the body and keeps everything. -/
theorem Sound.modify {f : Body → Body} (h : ∀ body : Body, body.Leads wide (f body)) :
    Sound wide (modify f) fun _ _ => True where
  ok := fun {body _ _} hstep => by
    cases hstep
    exact ⟨h body, fun _ _ _ _ => trivial⟩
  error := fun hstep => by cases hstep

/-- A failure that is passed over is an error that is found. -/
theorem Sound.recover {step : Resolver α} {right : Nat → α → Prop} (h : Sound wide step right) :
    Sound wide (Resolver.recover step) fun slots found =>
      ∀ a, found = some a → right slots a where
  ok := fun {body after found} hfound => by
    unfold Resolver.recover at hfound
    cases hstep : step body with
    | ok a middle =>
      rw [hstep] at hfound
      cases hfound
      refine ⟨(h.ok hstep).leads, fun hslots final hleads hgood b hb => ?_⟩
      cases hb
      exact (h.ok hstep).right hslots final hleads hgood
    | error e middle =>
      rw [hstep] at hfound
      cases hfound
      have hfailed : Failed (middle.diagnostics.push e) := failed_push (h.error hstep)
      refine ⟨⟨fun _ => hfailed, fun hgood => absurd hfailed hgood, fun hgood => ?_⟩, ?_⟩
      · exact absurd hfailed hgood
      · exact fun _ final hleads hgood => absurd (hleads.failed hfailed) hgood
  error := fun {body after e} h => by
    unfold Resolver.recover at h
    cases hstep : step body with
    | ok a middle =>
      rw [hstep] at h
      cases h
    | error e' middle =>
      rw [hstep] at h
      cases h

/-- To declare a variable fails, or takes the next slot for it. -/
theorem declareLocal_cases (name : String) (span : Span) (body : Body) :
    (∃ e after, Resolver.declareLocal name span body = .error e after ∧ e.isError = true) ∨
      ∃ scope rest, body.scopes = scope :: rest ∧ body.nextSlot < maxLocals ∧
        Resolver.declareLocal name span body = .ok body.nextSlot
          { body with
            scopes := (⟨name, body.nextSlot, false, span⟩ :: scope) :: rest
            nextSlot := body.nextSlot + 1
            maxSlot := max body.maxSlot (body.nextSlot + 1) } := by
  rw [Resolver.declareLocal, get_bind]
  cases hscopes : body.scopes with
  | nil => exact .inl ⟨_, _, rfl, rfl⟩
  | cons scope rest =>
    by_cases hknown : scope.any (·.name == name) = true
    · simp only [if_pos hknown]
      exact .inl ⟨_, _, rfl, rfl⟩
    · by_cases hroom : body.nextSlot < maxLocals
      · simp only [if_neg hknown, if_pos hroom]
        exact .inr ⟨scope, rest, rfl, hroom, rfl⟩
      · simp only [if_neg hknown, if_neg hroom]
        exact .inl ⟨_, _, rfl, rfl⟩

/-- A variable that is declared takes a slot that is counted. -/
theorem Sound.declareLocal (name : String) (span : Span) :
    Sound wide (Resolver.declareLocal name span) fun slots slot => slot < slots where
  ok := fun {body after slot} h => by
    obtain ⟨_, _, herror, -⟩ | ⟨scope, rest, hscopes, -, hok⟩ := declareLocal_cases name span body
    · rw [herror] at h
      cases h
    · rw [hok] at h
      cases h
      have hgrown : body.nextSlot < max body.maxSlot (body.nextSlot + 1) := by omega
      refine ⟨⟨id, fun _ => Nat.le_max_left .., ?_⟩, ?_⟩
      · rintro - (hwide | hslots)
        · exact .inl hwide
        · refine .inr fun other hother l hl => ?_
          have hold : ∀ other ∈ scope :: rest, ∀ l ∈ other,
              l.slot < max body.maxSlot (body.nextSlot + 1) := fun other hother l hl =>
            Nat.lt_of_lt_of_le (hslots other (hscopes ▸ hother) l hl) (Nat.le_max_left ..)
          obtain rfl | hother := List.mem_cons.mp hother
          · obtain rfl | hl := List.mem_cons.mp hl
            · exact hgrown
            · exact hold scope List.mem_cons_self l hl
          · exact hold other (List.mem_cons_of_mem scope hother) l hl
      · exact fun _ final hleads hgood => Nat.lt_of_lt_of_le hgrown (hleads.maxSlot hgood)
  error := fun {body after e} h => by
    obtain ⟨_, _, herror, hisError⟩ | ⟨_, _, -, -, hok⟩ := declareLocal_cases name span body
    · rw [herror] at h
      cases h
      exact hisError
    · rw [hok] at h
      cases h

end Resolver

end ScriptHost
