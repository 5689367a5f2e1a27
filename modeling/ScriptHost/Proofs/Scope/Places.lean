import ScriptHost.Proofs.Scope.Balanced
import ScriptHost.Proofs.Scope.Marks
/-!
# Places of what is said about names

Whatever is said about the names of a source text, be it an error or a warning, is said at the place
of a node of the tree of that text: in the first pass, which declares, as well as in the second one,
which looks at the bodies. A warning of a variable that is not used waits for the end of its scope,
but no scope is open from one text to the next.
-/

set_option autoImplicit false

namespace ScriptHost

/-- A diagnostic about names, at one of certain places. -/
def Diagnostic.NamesAt (places : Span → Prop) (d : Diagnostic) : Prop :=
  d.stage = .resolve ∧ places d.span

/-- All that has been said in the meantime is about names, at certain places. -/
def SaidAt (places : Span → Prop) (before after : Array Diagnostic) : Prop :=
  ∃ said : List Diagnostic, after.toList = before.toList ++ said ∧ ∀ d ∈ said, d.NamesAt places

namespace SaidAt

variable {places : Span → Prop}

theorem refl (diagnostics : Array Diagnostic) : SaidAt places diagnostics diagnostics :=
  ⟨[], (List.append_nil _).symm, nofun⟩

theorem trans {a b c : Array Diagnostic} (hab : SaidAt places a b) (hbc : SaidAt places b c) :
    SaidAt places a c := by
  obtain ⟨first, hb, hfirst⟩ := hab
  obtain ⟨second, hc, hsecond⟩ := hbc
  refine ⟨first ++ second, ?_, List.forall_mem_append.mpr ⟨hfirst, hsecond⟩⟩
  rw [hc, hb, List.append_assoc]

theorem push (diagnostics : Array Diagnostic) {d : Diagnostic} (hd : d.NamesAt places) :
    SaidAt places diagnostics (diagnostics.push d) :=
  ⟨[d], Array.toList_push, List.forall_mem_singleton.mpr hd⟩

end SaidAt

namespace Body

variable {places : Span → Prop}

/-- Every variable in scope has been used or was declared at one of certain places. -/
def Placed (places : Span → Prop) (body : Body) : Prop :=
  ∀ scope ∈ body.scopes, ∀ l ∈ scope, l.used = true ∨ places l.span

/-- On the way from one body to another, variables are declared at certain places, and that is where
things are said. -/
def Notes (places : Span → Prop) (before after : Body) : Prop :=
  before.Placed places →
    after.Placed places ∧ SaidAt places before.diagnostics after.diagnostics

theorem Notes.refl (body : Body) : body.Notes places body :=
  fun h => ⟨h, .refl _⟩

theorem Notes.trans {a b c : Body} (hab : a.Notes places b) (hbc : b.Notes places c) :
    a.Notes places c := by
  intro ha
  obtain ⟨hb, hfirst⟩ := hab ha
  obtain ⟨hc, hsecond⟩ := hbc hb
  exact ⟨hc, hfirst.trans hsecond⟩

theorem placed_markFirst {name : String} {scope : List Local}
    (h : ∀ l ∈ scope, l.used = true ∨ places l.span) :
    ∀ l ∈ markFirst name scope, l.used = true ∨ places l.span := by
  induction scope with
  | nil => exact nofun
  | cons first rest ih =>
    obtain ⟨hfirst, hrest⟩ := List.forall_mem_cons.mp h
    rw [markFirst]
    split
    · exact List.forall_mem_cons.mpr ⟨.inl rfl, hrest⟩
    · exact List.forall_mem_cons.mpr ⟨hfirst, ih hrest⟩

theorem placed_markIn {name : String} {scopes : List (List Local)}
    (h : ∀ scope ∈ scopes, ∀ l ∈ scope, l.used = true ∨ places l.span) :
    ∀ scope ∈ markIn name scopes, ∀ l ∈ scope, l.used = true ∨ places l.span := by
  induction scopes with
  | nil => exact nofun
  | cons first rest ih =>
    obtain ⟨hfirst, hrest⟩ := List.forall_mem_cons.mp h
    rw [markIn]
    split
    · exact List.forall_mem_cons.mpr ⟨placed_markFirst hfirst, hrest⟩
    · exact List.forall_mem_cons.mpr ⟨hfirst, ih hrest⟩

/-- To use variables says nothing. -/
theorem Marked.notes {before after : Body} (h : before.Marked after) : before.Notes places after :=
  h.induction (motive := before.Notes places) (.refl before) fun _ _ hbody =>
    hbody.trans fun hplaced => ⟨placed_markIn hplaced, .refl _⟩

theorem notes_enter (body : Body) : body.Notes places body.enter :=
  fun h => ⟨List.forall_mem_cons.mpr ⟨nofun, h⟩, .refl _⟩

theorem notes_push (body : Body) {d : Diagnostic} (hd : d.NamesAt places) :
    body.Notes places { body with diagnostics := body.diagnostics.push d } :=
  fun h => ⟨h, .push _ hd⟩

theorem notes_warn (body : Body) (level : Nat) (warning : ScopeWarning) {span : Span}
    (h : places span) : body.Notes places (body.warn level warning span) := by
  unfold warn
  split
  · exact notes_push body ⟨rfl, h⟩
  · exact .refl body

/-- Where a scope ends, variables of it are warned of that were never used. -/
theorem notes_leave (body : Body) (level : Nat) : body.Notes places (body.leave level) := by
  intro h
  have hwarnings : ∀ (locals : List Local) (body : Body), body.Placed places →
      (∀ l ∈ locals, l.used = true ∨ places l.span) →
        SaidAt places body.diagnostics (locals.foldl (leaveOne level) body).diagnostics := by
    intro locals
    induction locals with
    | nil => exact fun body _ _ => .refl _
    | cons l rest ih =>
      intro body hbody hlocals
      obtain ⟨hl, hrest⟩ := List.forall_mem_cons.mp hlocals
      have hone : body.Notes places (leaveOne level body l) := by
        unfold leaveOne
        split
        · exact .refl body
        · rename_i hunused
          exact notes_warn body level _ (hl.resolve_left hunused)
      obtain ⟨hplaced, hsaid⟩ := hone hbody
      exact hsaid.trans (ih _ hplaced hrest)
  rw [leave_eq]
  cases hscopes : body.scopes with
  | nil => exact ⟨h, .refl _⟩
  | cons scope rest =>
    have hplaced := h
    rw [Placed, hscopes, List.forall_mem_cons] at hplaced
    refine ⟨hplaced.2, hwarnings scope.reverse body h fun l hl => ?_⟩
    exact hplaced.1 l (List.mem_reverse.mp hl)

/-- Parameters count as used. -/
theorem placed_ofParams (params : List String) (diagnostics : Array Diagnostic) :
    (ofParams params diagnostics).Placed places := by
  intro scope hscope l hl
  rw [List.mem_singleton.mp hscope, List.mem_reverse] at hl
  obtain ⟨_, _, rfl⟩ := List.mem_mapIdx.mp hl
  exact .inl rfl

end Body

namespace Resolver

variable {α β : Type} {places : Span → Prop}

/-- A step says things at certain places only, and fails with an error at one of them. -/
structure Notes (places : Span → Prop) (step : Resolver α) : Prop where
  ok : ∀ {before after : Body} {a : α}, step before = .ok a after → before.Notes places after
  error : ∀ {before after : Body} {d : Diagnostic}, step before = .error d after →
    before.Notes places after ∧ d.NamesAt places

theorem Looks.notes {step : Resolver α} (h : Looks places step) : Notes places step where
  ok := fun hok => (h.ok hok).notes
  error := fun herror => by
    obtain ⟨hmarked, e, span, hspan, rfl⟩ := h.error herror
    exact ⟨hmarked.notes, rfl, hspan⟩

namespace Notes

theorem pure (a : α) : Notes places (Pure.pure a : Resolver α) :=
  Looks.pure.notes

theorem bind {step : Resolver α} {next : α → Resolver β} (hstep : Notes places step)
    (hnext : ∀ a, Notes places (next a)) : Notes places (step >>= next) where
  ok := fun h => by
    obtain ⟨a, middle, ha, hb⟩ := bind_eq_ok.mp h
    exact (hstep.ok ha).trans ((hnext a).ok hb)
  error := fun h => by
    obtain h | ⟨a, middle, ha, hb⟩ := bind_eq_error.mp h
    · exact hstep.error h
    · obtain ⟨hnotes, hd⟩ := (hnext a).error hb
      exact ⟨(hstep.ok ha).trans hnotes, hd⟩

theorem fail {e : ScopeError} {span : Span} (h : places span) :
    Notes places (Resolver.fail e span : Resolver α) :=
  (Looks.fail h).notes

theorem get : Notes places (MonadState.get : Resolver Body) :=
  Looks.get.notes

theorem modify {f : Body → Body} (h : ∀ body : Body, body.Notes places (f body)) :
    Notes places (modify f : Resolver PUnit) where
  ok := fun hok => by
    cases hok
    exact h _
  error := fun herror => by cases herror

/-- A failure that is passed over has been told. -/
theorem recover {step : Resolver α} (h : Notes places step) :
    Notes places (Resolver.recover step) where
  ok := fun {before after found} hok => by
    unfold Resolver.recover at hok
    cases hstep : step before with
    | ok a middle =>
      rw [hstep] at hok
      cases hok
      exact h.ok hstep
    | error d middle =>
      rw [hstep] at hok
      cases hok
      obtain ⟨hnotes, hd⟩ := h.error hstep
      exact hnotes.trans (Body.notes_push middle hd)
  error := fun {before after d} herror => by
    unfold Resolver.recover at herror
    cases hstep : step before with
    | ok a middle =>
      rw [hstep] at herror
      cases herror
    | error e middle =>
      rw [hstep] at herror
      cases herror

/-- A variable is declared at a place. -/
theorem declareLocal (name : String) {span : Span} (h : places span) :
    Notes places (Resolver.declareLocal name span) := by
  have hgrown (body : Body) {scope : List Local} {rest : List (List Local)}
      (hscopes : body.scopes = scope :: rest) (slot nextSlot maxSlot : Nat) :
      body.Notes places { body with
        scopes := (⟨name, slot, false, span⟩ :: scope) :: rest, nextSlot, maxSlot } := by
    intro hplaced
    rw [Body.Placed, hscopes, List.forall_mem_cons] at hplaced
    obtain ⟨hscope, hrest⟩ := hplaced
    refine ⟨List.forall_mem_cons.mpr ⟨?_, hrest⟩, .refl _⟩
    exact List.forall_mem_cons.mpr ⟨.inr h, hscope⟩
  unfold Resolver.declareLocal
  refine ⟨fun {before after slot} hrun => ?_, fun {before after d} hrun => ?_⟩
  all_goals
    rw [get_bind] at hrun
    cases hscopes : before.scopes with
    | nil =>
      rw [hscopes] at hrun
      cases hrun
      try exact ⟨.refl before, rfl, h⟩
    | cons scope rest =>
      rw [hscopes] at hrun
      dsimp only at hrun
      split_ifs at hrun with hknown hroom
      all_goals
        cases hrun
        try first
          | exact ⟨.refl before, rfl, h⟩
          | exact hgrown before hscopes _ _ _
          | exact ⟨hgrown before hscopes _ _ _, rfl, h⟩

theorem mapM {list : List α} {step : α → Resolver β}
    (h : ∀ a ∈ list, Notes places (step a)) : Notes places (list.mapM step) := by
  induction list with
  | nil =>
    rw [List.mapM_nil]
    exact .pure _
  | cons a rest ih =>
    obtain ⟨hfirst, hrest⟩ := List.forall_mem_cons.mp h
    rw [List.mapM_cons]
    exact hfirst.bind fun _ => (ih hrest).bind fun _ => .pure _

end Notes

end Resolver

namespace Scope

open Resolver

variable {ctx : Context} {places : Span → Prop}

/-- A block says things where what is in it says them. -/
theorem block_notes {α β : Type} {walk : Resolver α} (h : Notes places walk) (level : Nat)
    {next : α → Resolver β} (hnext : ∀ a, Notes places (next a)) :
    Notes places (do
      modify Body.enter
      let a ← walk
      modify fun body => body.leave level
      next a) :=
  (Notes.modify Body.notes_enter).bind fun _ => h.bind fun a =>
    (Notes.modify fun body => body.notes_leave level).bind fun _ => hnext a

mutual

/-- Things are said at the places of a statement and its parts. -/
theorem resolveStmt_notes : ∀ {s : Stmt}, (∀ span ∈ s.spans, places span) →
    Notes places (resolveStmt ctx s)
  | .letVar name value span, h => by
    rw [Stmt.spans, List.forall_mem_cons] at h
    rw [resolveStmt]
    refine (resolveExpr_looks h.2).notes.bind fun _ => Notes.get.bind fun body => ?_
    split
    · split
      · exact .pure _
      · exact .fail h.1
    · exact (Notes.declareLocal name h.1).bind fun _ => .pure _
  | .assign target value span, h => by
    rw [Stmt.spans, List.forall_mem_cons, List.forall_mem_append] at h
    rw [resolveStmt]
    exact (resolveAssign_looks h.1 h.2.1 h.2.2).notes
  | .ifThen condition body span, h => by
    rw [Stmt.spans, List.forall_mem_cons, List.forall_mem_append] at h
    rw [resolveStmt]
    exact (resolveExpr_looks h.2.1).notes.bind fun _ =>
      block_notes (resolveStmts_notes h.2.2 .live []) _ fun _ => .pure _
  | .ifElse condition body alternative span, h => by
    rw [Stmt.spans, List.forall_mem_cons, List.forall_mem_append, List.forall_mem_append] at h
    rw [resolveStmt]
    exact (resolveExpr_looks h.2.1).notes.bind fun _ =>
      block_notes (resolveStmts_notes h.2.2.1 .live []) _ fun _ =>
        block_notes (resolveStmts_notes h.2.2.2 .live []) _ fun _ => .pure _
  | .loop condition body span, h => by
    rw [Stmt.spans, List.forall_mem_cons, List.forall_mem_append] at h
    rw [resolveStmt]
    exact (resolveExpr_looks h.2.1).notes.bind fun _ =>
      block_notes (resolveStmts_notes h.2.2 .live []) _ fun _ => .pure _
  | .ret none span, h => by
    rw [Stmt.spans, List.forall_mem_singleton] at h
    rw [resolveStmt]
    split
    · exact .pure _
    · exact (Notes.fail h).bind fun _ => .pure _
  | .ret (some value) span, h => by
    rw [Stmt.spans, List.forall_mem_cons] at h
    rw [resolveStmt]
    split
    · exact (resolveExpr_looks h.2).notes.bind fun _ => .pure _
    · exact (Notes.fail h.1).bind fun _ => (resolveExpr_looks h.2).notes.bind fun _ => .pure _
  | .block body span, h => by
    rw [Stmt.spans, List.forall_mem_cons] at h
    rw [resolveStmt]
    exact block_notes (resolveStmts_notes h.2 .live []) _ fun _ => .pure _
  | .expr value, h => by
    rw [resolveStmt]
    exact (resolveExpr_looks h).notes.bind fun _ => .pure _

/-- Things are said at the places of statements and their parts. -/
theorem resolveStmts_notes : ∀ {body : List Stmt}, (∀ span ∈ Stmt.spansAll body, places span) →
    ∀ (reach : Reach) (found : List Resolved.Stmt), Notes places (resolveStmts ctx reach found body)
  | [], _, reach, found => by
    rw [resolveStmts]
    exact .pure _
  | s :: rest, h, reach, found => by
    rw [Stmt.spansAll, List.forall_mem_append] at h
    have hrest : Notes places (do
        let resolved ← Resolver.recover (resolveStmt ctx s)
        resolveStmts ctx (reach.after s) (resolved.toList ++ found) rest) :=
      (resolveStmt_notes h.1).recover.bind fun _ => resolveStmts_notes h.2 _ _
    rw [resolveStmts]
    split
    · refine (Notes.modify fun body => ?_).bind fun _ => hrest
      exact body.notes_warn _ _ (h.1 _ s.span_mem_spans)
    · exact hrest

end

namespace Progress

/-- Things are said about a body where its walk says them. -/
theorem said_addBody (p : Progress) (params : List String)
    {walk : Resolver (List Resolved.Stmt)} (h : Notes places walk) :
    SaidAt places p.top.diagnostics (p.addBody params walk).top.diagnostics := by
  have hstart : (Body.ofParams params p.top.diagnostics).Placed places :=
    Body.placed_ofParams params p.top.diagnostics
  unfold Progress.addBody
  dsimp only
  cases hresult : walk (.ofParams params p.top.diagnostics) with
  | ok trees body => exact (h.ok hresult hstart).2
  | error d body =>
    obtain ⟨hnotes, hd⟩ := h.error hresult
    exact (hnotes hstart).2.trans (.push _ hd)

theorem said_addFunction (p : Progress) (ctx : Context) {f : FunctionDecl}
    (h : ∀ span ∈ f.spans, places span) :
    SaidAt places p.top.diagnostics (p.addFunction ctx f).top.diagnostics := by
  rw [FunctionDecl.spans, List.forall_mem_cons] at h
  refine p.said_addBody f.params ?_
  exact (resolveStmts_notes h.2 .live []).bind fun _ =>
    (Notes.modify fun body => body.notes_leave _).bind fun _ => .pure _

theorem fieldAssignment_notes {field : FieldDecl} (h : ∀ span ∈ field.spans, places span) :
    Notes places (fieldAssignment ctx field) := by
  rw [FieldDecl.spans, List.forall_mem_cons] at h
  unfold fieldAssignment
  split
  · exact .pure _
  · rename_i initial hinitial
    rw [hinitial, Option.toList_some, List.flatMap_singleton] at h
    exact ((resolveExpr_looks h.2).notes.bind fun _ => .pure _).recover

theorem said_addClass (p : Progress) (outer : Context) {c : ClassDecl}
    (h : ∀ span ∈ c.spans, places span) :
    SaidAt places p.top.diagnostics (p.addClass outer c).top.diagnostics := by
  rw [ClassDecl.spans, List.forall_mem_cons, List.forall_mem_append, List.forall_mem_flatMap,
    List.forall_mem_flatMap] at h
  obtain ⟨-, hfields, hmethods⟩ := h
  have hall : ∀ (ctx : Context) (methods : List FunctionDecl) (p : Progress),
      (∀ method ∈ methods, ∀ span ∈ method.spans, places span) →
        SaidAt places p.top.diagnostics
          (methods.foldl (fun p method => p.addFunction ctx method) p).top.diagnostics := by
    intro ctx methods
    induction methods with
    | nil => exact fun p _ => .refl _
    | cons method rest ih =>
      intro p hmethods
      obtain ⟨hmethod, hrest⟩ := List.forall_mem_cons.mp hmethods
      exact (p.said_addFunction ctx hmethod).trans (ih _ hrest)
  unfold Progress.addClass
  dsimp only
  refine SaidAt.trans ?_ (hall _ c.methods _ hmethods)
  refine Progress.said_addBody { p with classes := p.classes + 1 } [] ?_
  exact (Notes.mapM fun field hfield => fieldAssignment_notes (hfields field hfield)).bind
    fun _ => .pure _

/-- No scope is open where a statement of the top level starts. -/
theorem said_addStmt {p : Progress} (hclosed : p.top.Nested 0) (ctx : Context) {s : Stmt}
    (h : ∀ span ∈ s.spans, places span) :
    SaidAt places p.top.diagnostics (p.addStmt ctx s).top.diagnostics := by
  have hstart : p.top.Placed places := by
    rw [Body.Placed, List.eq_nil_of_length_eq_zero hclosed.scopes]
    exact nofun
  have hwalk : Notes places (resolveStmt ctx s) := resolveStmt_notes h
  unfold Progress.addStmt
  split
  · dsimp only
    cases hresult : resolveStmt ctx s p.top with
    | ok tree top => exact (hwalk.ok hresult hstart).2
    | error d top =>
      obtain ⟨hnotes, hd⟩ := hwalk.error hresult
      exact (hnotes hstart).2.trans (.push _ hd)
  · exact .push _ ⟨rfl, h _ s.span_mem_spans⟩

mutual

/-- Things are said at the places of an item and its parts. -/
theorem said_addItem : ∀ {item : Item}, (∀ span ∈ item.spans, places span) →
    ∀ (ctx : Context) {p : Progress}, p.top.Nested 0 →
      SaidAt places p.top.diagnostics (addItem ctx p item).top.diagnostics
  | .space path items span, h, ctx, p, hclosed => by
    rw [Item.spans, List.forall_mem_cons] at h
    rw [addItem]
    exact said_addItems h.2 _ hclosed
  | .classDecl c, h, ctx, p, _ => by
    rw [addItem]
    exact p.said_addClass ctx h
  | .function f, h, ctx, p, _ => by
    rw [addItem]
    exact p.said_addFunction ctx h
  | .stmt s, h, ctx, p, hclosed => by
    rw [addItem]
    exact said_addStmt hclosed ctx h

/-- Things are said at the places of items and their parts. -/
theorem said_addItems : ∀ {items : List Item}, (∀ span ∈ Item.spansAll items, places span) →
    ∀ (ctx : Context) {p : Progress}, p.top.Nested 0 →
      SaidAt places p.top.diagnostics (addItems ctx p items).top.diagnostics
  | [], _, _, _, _ => .refl _
  | item :: rest, h, ctx, p, hclosed => by
    rw [Item.spansAll, List.forall_mem_append] at h
    rw [addItems]
    exact (said_addItem h.1 ctx hclosed).trans
      (said_addItems h.2 ctx (nested_addItem item ctx hclosed))

end

end Progress

end Scope

namespace Declarations

variable {places : Span → Prop} {program : Program}

theorem said_addFunction (d : Declarations) (space : List String) {f : FunctionDecl}
    (h : places f.span) : SaidAt places d.diagnostics (d.addFunction space f).diagnostics := by
  unfold Declarations.addFunction
  dsimp only
  split
  · exact .push _ ⟨rfl, h⟩
  · exact .refl _

theorem said_addFields (className : String) (fields : List FieldDecl) (names : List String)
    (d : Declarations) (h : ∀ field ∈ fields, places field.span) :
    SaidAt places d.diagnostics
      (fields.foldl (addField className) (names, d)).2.diagnostics := by
  induction fields generalizing names d with
  | nil => exact .refl _
  | cons field rest ih =>
    obtain ⟨hfield, hrest⟩ := List.forall_mem_cons.mp h
    rw [List.foldl_cons, addField]
    split
    · exact SaidAt.trans (.push _ ⟨rfl, hfield⟩) (ih _ _ hrest)
    · exact ih _ _ hrest

theorem said_addMethods (className : String) (fields : List String)
    (methods : List FunctionDecl) (table : Table Nat) (d : Declarations)
    (h : ∀ method ∈ methods, places method.span) :
    SaidAt places d.diagnostics
      (methods.foldl (addMethod className fields) (table, d)).2.diagnostics := by
  induction methods generalizing table d with
  | nil => exact .refl _
  | cons method rest ih =>
    obtain ⟨hmethod, hrest⟩ := List.forall_mem_cons.mp h
    rw [List.foldl_cons, addMethod]
    dsimp only
    split
    · exact SaidAt.trans (.push _ ⟨rfl, hmethod⟩) (ih _ _ hrest)
    · exact ih _ (d.pushFunction _ _) hrest

theorem said_addClass (d : Declarations) (space : List String) {c : ClassDecl}
    (h : ∀ span ∈ c.spans, places span) :
    SaidAt places d.diagnostics (d.addClass space c).diagnostics := by
  rw [ClassDecl.spans, List.forall_mem_cons, List.forall_mem_append, List.forall_mem_flatMap,
    List.forall_mem_flatMap] at h
  obtain ⟨hown, hfields, hmethods⟩ := h
  have hmembers (name : String) (start : Declarations) (names : List String) :
      SaidAt places start.diagnostics
        (((start.addFields name c.fields).2.addMethods name names c.methods).2).diagnostics :=
    (said_addFields name c.fields [] start
      fun field hfield => hfields field hfield _ List.mem_cons_self).trans
      (said_addMethods name names c.methods {} _
        fun method hmethod => hmethods method hmethod _ List.mem_cons_self)
  have hall := hmembers (qualify space c.name)
    (d.pushFunction (qualify space c.name ++ ".<fields>") 0)
    ((d.pushFunction (qualify space c.name ++ ".<fields>") 0).addFields (qualify space c.name)
      c.fields).1
  unfold Declarations.addClass
  dsimp only
  split
  · exact hall.trans (.push _ ⟨rfl, hown⟩)
  · exact hall

theorem said_addGlobal (d : Declarations) (name : String) {span : Span} (h : places span) :
    SaidAt places d.diagnostics (d.addGlobal program name span).diagnostics := by
  unfold Declarations.addGlobal
  split
  · exact .push _ ⟨rfl, h⟩
  · split <;> exact .refl _

mutual

/-- What an item declares is complained of at the places of the item and its parts. -/
theorem said_addItem : ∀ {item : Item}, (∀ span ∈ item.spans, places span) →
    ∀ (space : List String) (d : Declarations),
      SaidAt places d.diagnostics (addItem program space d item).diagnostics
  | .space path items span, h, space, d => by
    rw [Item.spans, List.forall_mem_cons] at h
    rw [addItem]
    exact said_addItems h.2 _ d
  | .classDecl c, h, space, d => by
    rw [addItem]
    exact d.said_addClass space h
  | .function f, h, space, d => by
    rw [addItem]
    exact d.said_addFunction space (h _ List.mem_cons_self)
  | .stmt s, h, space, d => by
    cases s with
    | letVar name value span =>
      rw [addItem]
      split
      · exact d.said_addGlobal name (h _ List.mem_cons_self)
      · exact .refl _
    | _ => exact .refl _

/-- What items declare is complained of at the places of the items and their parts. -/
theorem said_addItems : ∀ {items : List Item}, (∀ span ∈ Item.spansAll items, places span) →
    ∀ (space : List String) (d : Declarations),
      SaidAt places d.diagnostics (addItems program space d items).diagnostics
  | [], _, _, _ => .refl _
  | item :: rest, h, space, d => by
    rw [Item.spansAll, List.forall_mem_append] at h
    rw [addItems]
    exact (said_addItem h.1 space d).trans (said_addItems h.2 space _)

end

end Declarations

end ScriptHost
