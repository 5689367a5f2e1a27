import ScriptHost.Proofs.Scope.Lexical
/-!
# Lifetimes of variables

A variable lives from the instruction that stores its first value to the end of its block, and code
keeps to that: an instruction reads only variables in scope, and leads nowhere where another
variable is in scope, but for the one whose first value it stores. The list of the variables in
scope at each instruction, as `StmtsScoped` gives it, `Fits` the code in this sense.

The main statement is `StmtsScoped.fits`.
-/

set_option autoImplicit false

namespace ScriptHost

/-- Something holds of every instruction of code that starts at a place. -/
def Throughout (holds : Nat → Op → Prop) : Nat → List Op → Prop
  | _, [] => True
  | place, op :: rest => holds place op ∧ Throughout holds (place + 1) rest

theorem throughout_append {holds : Nat → Op → Prop} {start : Nat} {front rest : List Op} :
    Throughout holds start (front ++ rest) ↔
      Throughout holds start front ∧ Throughout holds (start + front.length) rest := by
  induction front generalizing start with
  | nil => simp [Throughout]
  | cons op front ih =>
    simp only [List.cons_append, Throughout, ih, List.length_cons, and_assoc]
    rw [Nat.add_right_comm start 1, Nat.add_assoc start]

theorem Throughout.op {holds : Nat → Op → Prop} {start : Nat} {code : List Op}
    (h : Throughout holds start code) {index : Nat} {op : Op} (hop : code[index]? = some op) :
    holds (start + index) op := by
  induction code generalizing start index with
  | nil => simp at hop
  | cons first rest ih =>
    cases index with
    | zero =>
      rw [List.getElem?_cons_zero, Option.some.injEq] at hop
      exact hop ▸ h.1
    | succ index =>
      rw [List.getElem?_cons_succ] at hop
      have hop' := ih h.2 hop
      rwa [Nat.add_assoc, Nat.add_comm 1] at hop'

theorem Throughout.imp {holds weaker : Nat → Op → Prop} {start : Nat} {code : List Op}
    (h : Throughout holds start code)
    (himp : ∀ place op, start ≤ place → place < start + code.length → holds place op →
      weaker place op) : Throughout weaker start code := by
  induction code generalizing start with
  | nil => trivial
  | cons op rest ih =>
    rw [List.length_cons] at himp
    refine ⟨himp start op (Nat.le_refl _) (by omega) h.1, ih h.2 fun place op hlow hhigh => ?_⟩
    exact himp place op (by omega) (by omega)

/-- Equal members stand wherever one of them stands. -/
theorem PartAt.replicate {α : Type} {whole : Array α} {start count : Nat} {a : α}
    (h : PartAt whole start (List.replicate count a)) {place : Nat} (hlow : start ≤ place)
    (hhigh : place < start + count) : whole[place]? = some a := by
  induction count generalizing start with
  | zero => omega
  | succ count ih =>
    rw [List.replicate_succ, PartAt] at h
    by_cases hfirst : place = start
    · rw [hfirst]
      exact h.1
    · exact ih h.2 (by omega) (by omega)

namespace Scope

/-! ## Expressions -/

/-- An instruction of an expression leads nowhere but to places from `low` to `high`, and reads only
variables in scope. -/
def Evaluates (vars : List Variable) (low high place : Nat) (op : Op) : Prop :=
  (∀ next ∈ op.successors (place + 1), low ≤ next ∧ next ≤ high) ∧
    ∀ slot, op = .loadLocal slot → ∃ v ∈ vars, v.slot = slot

variable {vars : List Variable} {low high : Nat} {pool : Code.Pool} {base : Nat}

/-- An instruction that leads to the next place and reads no variable. -/
theorem evaluates_next {place : Nat} {op : Op}
    (hsuccessors : op.successors (place + 1) = [place + 1])
    (hloads : ∀ slot, op ≠ .loadLocal slot) (hlow : low ≤ place) (hhigh : place < high) :
    Evaluates vars low high place op := by
  refine ⟨fun next hnext => ?_, fun slot hslot => absurd hslot (hloads slot)⟩
  rw [hsuccessors, List.mem_singleton] at hnext
  omega

theorem evaluates_jump {place target : Nat} (hlow : low ≤ target) (hhigh : target ≤ high) :
    Evaluates vars low high place (.jump target) := by
  refine ⟨fun next hnext => ?_, nofun⟩
  obtain rfl : next = target := by simpa [Op.successors] using hnext
  exact ⟨hlow, hhigh⟩

theorem evaluates_jumpIfFalse {place target : Nat} (hplace : low ≤ place) (hnext : place < high)
    (hlow : low ≤ target) (hhigh : target ≤ high) :
    Evaluates vars low high place (.jumpIfFalse target) := by
  refine ⟨fun next hmem => ?_, nofun⟩
  obtain rfl | rfl : next = place + 1 ∨ next = target := by simpa [Op.successors] using hmem
  · exact ⟨Nat.le_succ_of_le hplace, hnext⟩
  · exact ⟨hlow, hhigh⟩

/-- Code with an instruction behind it that leads to the next place and reads no variable. -/
theorem throughout_concat {start : Nat} {code : List Op} {op : Op}
    (h : Throughout (Evaluates vars low high) start code)
    (hsuccessors : ∀ next, op.successors next = [next]) (hloads : ∀ slot, op ≠ .loadLocal slot)
    (hlow : low ≤ start) (hhigh : start + (code ++ [op]).length ≤ high) :
    Throughout (Evaluates vars low high) start (code ++ [op]) := by
  rw [List.length_append, List.length_singleton] at hhigh
  exact throughout_append.mpr
    ⟨h, evaluates_next (hsuccessors _) hloads (by omega) (by omega), trivial⟩

mutual

/-- The code of an expression leads nowhere else, and reads only variables in scope. -/
theorem Binds.evaluates : ∀ {e : Expr} {tree : Resolved.Expr}, Binds vars e tree →
    ∀ {start : Nat} {code : List Op}, Code.Lowered pool base start tree code → low ≤ start →
      start + code.length ≤ high → Throughout (Evaluates vars low high) start code
  | _, _, .int, start, code, lowered, hlow, hhigh
  | _, _, .float, start, code, lowered, hlow, hhigh
  | _, _, .str, start, code, lowered, hlow, hhigh
  | _, _, .bool, start, code, lowered, hlow, hhigh
  | _, _, .null, start, code, lowered, hlow, hhigh
  | _, _, .this, start, code, lowered, hlow, hhigh
  | _, _, .loadGlobal _, start, code, lowered, hlow, hhigh => by
    cases lowered <;> exact ⟨evaluates_next rfl nofun hlow hhigh, trivial⟩
  | _, _, .loadLocal newest, start, code, lowered, hlow, hhigh => by
    cases lowered
    refine ⟨⟨fun next hnext => ?_, fun slot hslot => ?_⟩, trivial⟩
    · obtain rfl : next = start + 1 := by simpa [Op.successors] using hnext
      exact ⟨Nat.le_succ_of_le hlow, hhigh⟩
    · cases hslot
      exact ⟨_, List.mem_of_find?_eq_some newest, rfl⟩
  | _, _, @Binds.binary _ op _ _ _ _ _ first second, start, code, lowered, hlow, hhigh => by
    cases lowered with
    | @and _ _ _ l r left right =>
      simp only [List.length_append, List.length_cons, List.length_nil] at hhigh
      simp only [List.append_assoc, List.cons_append, throughout_append, Throughout]
      exact ⟨first.evaluates left hlow (by omega),
        evaluates_jumpIfFalse (by omega) (by omega) (by omega) (by omega),
        second.evaluates right (by omega) (by omega), evaluates_jump (by omega) (by omega),
        evaluates_next rfl nofun (by omega) (by omega), trivial⟩
    | @or _ _ _ l r left right =>
      simp only [List.length_append, List.length_cons] at hhigh
      simp only [throughout_append, Throughout]
      exact ⟨first.evaluates left hlow (by omega),
        evaluates_jumpIfFalse (by omega) (by omega) (by omega) (by omega),
        evaluates_next rfl nofun (by omega) (by omega), evaluates_jump (by omega) (by omega),
        second.evaluates right (by omega) (by omega)⟩
    | @binary _ _ _ _ l r _ _ left right =>
      have hlength := hhigh
      rw [List.length_append, List.length_append] at hlength
      refine throughout_concat (throughout_append.mpr ⟨first.evaluates left hlow (by omega),
        second.evaluates right (by omega) (by omega)⟩) (fun _ => ?_) (fun _ => ?_) hlow hhigh
      · cases op <;> rfl
      · cases op <;> nofun
  | _, _, @Binds.unary _ op _ _ _ first, start, code, lowered, hlow, hhigh => by
    cases lowered with
    | unary operand =>
      have hlength := hhigh
      rw [List.length_append] at hlength
      refine throughout_concat (first.evaluates operand hlow (by omega)) (fun _ => ?_)
        (fun _ => ?_) hlow hhigh
      · cases op <;> rfl
      · cases op <;> nofun
  | _, _, .call all, start, code, lowered, hlow, hhigh
  | _, _, .callFree _ _ all, start, code, lowered, hlow, hhigh => by
    cases lowered with
    | call args =>
      have hlength := hhigh
      rw [List.length_append] at hlength
      exact throughout_concat (all.evaluates args hlow (by omega)) (fun _ => rfl) nofun hlow hhigh
  | _, _, .callHost _ _ all, start, code, lowered, hlow, hhigh => by
    cases lowered with
    | callHost args known =>
      have hlength := hhigh
      rw [List.length_append] at hlength
      exact throughout_concat (all.evaluates args hlow (by omega)) (fun _ => rfl) nofun hlow hhigh
  | _, _, .callMethod receiver all, start, code, lowered, hlow, hhigh => by
    cases lowered with
    | callMethod object args known =>
      have hlength := hhigh
      rw [List.length_append, List.length_append] at hlength
      exact throughout_concat (throughout_append.mpr ⟨receiver.evaluates object hlow (by omega),
        all.evaluates args (by omega) (by omega)⟩) (fun _ => rfl) nofun hlow hhigh
  | _, _, .field receiver, start, code, lowered, hlow, hhigh => by
    cases lowered with
    | getField object known =>
      have hlength := hhigh
      rw [List.length_append] at hlength
      exact throughout_concat (receiver.evaluates object hlow (by omega)) (fun _ => rfl) nofun hlow
        hhigh
  | _, _, .create all, start, code, lowered, hlow, hhigh => by
    cases lowered with
    | create args =>
      have hlength := hhigh
      rw [List.length_append] at hlength
      exact throughout_concat (all.evaluates args hlow (by omega)) (fun _ => rfl) nofun hlow hhigh

/-- So does the code of several expressions. -/
theorem BindsAll.evaluates : ∀ {args : List Expr} {trees : List Resolved.Expr},
    BindsAll vars args trees → ∀ {start : Nat} {code : List Op},
      Code.LoweredAll pool base start trees code → low ≤ start → start + code.length ≤ high →
        Throughout (Evaluates vars low high) start code
  | _, _, .nil, start, code, lowered, hlow, hhigh => by
    cases lowered
    trivial
  | _, _, .cons first others, start, code, lowered, hlow, hhigh => by
    cases lowered with
    | cons head tail =>
      rw [List.length_append] at hhigh
      exact throughout_append.mpr ⟨first.evaluates head hlow (by omega),
        others.evaluates tail (by omega) (by omega)⟩

end

/-! ## Statements -/

/-- What is in scope behind an instruction was in scope before it, or is a variable whose first
value the instruction stores. -/
def Follows (place : Nat) (op : Op) (vars after : List Variable) : Prop :=
  after <:+ vars ∨
    ∃ v : Variable, v.stored = some place ∧ op = .storeLocal v.slot ∧ after <:+ v :: vars

/-- Lists of the variables in scope fit an instruction: it reads only what is in scope, and wherever
it leads, nothing else has come into scope. -/
def Fits (scopes : Array (List Variable)) (place : Nat) (op : Op) : Prop :=
  ∃ vars, scopes[place]? = some vars ∧ (∀ slot, op = .loadLocal slot → ∃ v ∈ vars, v.slot = slot) ∧
    ∀ next ∈ op.successors (place + 1), ∃ after, scopes[next]? = some after ∧
      Follows place op vars after

/-- At a place nothing is in scope but some of the older of these variables. -/
def Comes (scopes : Array (List Variable)) (place : Nat) (vars : List Variable) : Prop :=
  ∃ after, scopes[place]? = some after ∧ after <:+ vars

variable {scopes : Array (List Variable)} {count : Nat}

theorem Comes.mono {place : Nat} {few many : List Variable} (h : Comes scopes place few)
    (hsuffix : few <:+ many) : Comes scopes place many := by
  obtain ⟨after, hafter, hfew⟩ := h
  exact ⟨after, hafter, hfew.trans hsuffix⟩

theorem Comes.of_eq {place : Nat} (h : scopes[place]? = some vars) : Comes scopes place vars :=
  ⟨vars, h, List.suffix_refl vars⟩

/-- An instruction that reads no variable, and whose places are all among these. -/
theorem fits_of_leads {place : Nat} {op : Op} (h : scopes[place]? = some vars)
    (hloads : ∀ slot, op ≠ .loadLocal slot)
    (hleads : ∀ next ∈ op.successors (place + 1), Comes scopes next vars) :
    Fits scopes place op := by
  refine ⟨vars, h, fun slot hslot => absurd hslot (hloads slot), fun next hnext => ?_⟩
  obtain ⟨after, hafter, hsuffix⟩ := hleads next hnext
  exact ⟨after, hafter, .inl hsuffix⟩

/-- An instruction that goes on behind itself. -/
theorem fits_next {place : Nat} {op : Op} (h : scopes[place]? = some vars)
    (hsuccessors : op.successors (place + 1) = [place + 1])
    (hloads : ∀ slot, op ≠ .loadLocal slot) (hnext : Comes scopes (place + 1) vars) :
    Fits scopes place op := by
  refine fits_of_leads h hloads fun next hmem => ?_
  rw [hsuccessors, List.mem_singleton] at hmem
  exact hmem ▸ hnext

/-- A jump leads to its target. -/
theorem fits_jump {place target : Nat} (h : scopes[place]? = some vars)
    (hto : Comes scopes target vars) : Fits scopes place (.jump target) := by
  refine fits_of_leads h nofun fun next hnext => ?_
  obtain rfl : next = target := by simpa [Op.successors] using hnext
  exact hto

/-- A return leads nowhere. -/
theorem fits_ret {place : Nat} (h : scopes[place]? = some vars) : Fits scopes place .ret :=
  fits_of_leads h nofun fun next hnext => by simp [Op.successors] at hnext

/-- All through an expression the same variables are in scope. -/
theorem Binds.fits {e : Expr} {tree : Resolved.Expr} (h : Binds vars e tree) {start : Nat}
    {code : List Op} (lowered : Code.Lowered pool base start tree code)
    (hscopes : ∀ place, start ≤ place → place ≤ start + code.length →
      scopes[place]? = some vars) : Throughout (Fits scopes) start code := by
  have hcode : Throughout (Evaluates vars start (start + code.length)) start code :=
    h.evaluates lowered (Nat.le_refl _) (Nat.le_refl _)
  refine hcode.imp fun place op hlow hhigh ⟨hleads, hloads⟩ => ?_
  refine ⟨vars, hscopes place hlow (by omega), hloads, fun next hnext => ?_⟩
  obtain ⟨hstart, hstop⟩ := hleads next hnext
  exact ⟨vars, hscopes next hstart hstop, .inl (List.suffix_refl vars)⟩

/-- An expression, and an instruction that takes its value. -/
theorem Binds.fits_concat {e : Expr} {tree : Resolved.Expr} (h : Binds vars e tree) {start : Nat}
    {code : List Op} {op : Op} (lowered : Code.Lowered pool base start tree code)
    (hscopes : PartAt scopes start (List.replicate (tree.width + 1) vars))
    (hop : scopes[start + code.length]? = some vars → Fits scopes (start + code.length) op) :
    Throughout (Fits scopes) start (code ++ [op]) := by
  have hwidth := lowered.width
  have hat (place : Nat) (hlow : start ≤ place) (hhigh : place ≤ start + code.length) :
      scopes[place]? = some vars := hscopes.replicate hlow (by omega)
  exact throughout_append.mpr
    ⟨h.fits lowered hat, hop (hat _ (Nat.le_add_right ..) (Nat.le_refl _)), trivial⟩

/-- What was in scope before a statement is in scope behind it. -/
theorem StmtScoped.suffix {top : Bool} {next : List Variable} {start : Nat} {s : Stmt}
    {tree : Resolved.Stmt} {places : List (List Variable)}
    (h : StmtScoped count top vars start s tree places next) : vars <:+ next := by
  cases h with
  | letLocal first room => exact List.suffix_cons ..
  | _ => exact List.suffix_refl vars

theorem StmtsScoped.suffix {top : Bool} {last : List Variable} {start : Nat} {body : List Stmt}
    {trees : List Resolved.Stmt} {places : List (List Variable)}
    (h : StmtsScoped count top vars start body trees places last) : vars <:+ last := by
  induction body generalizing vars start trees places with
  | nil =>
    cases h
    exact List.suffix_refl _
  | cons s rest ih =>
    cases h with
    | cons first others => exact first.suffix.trans (ih others)

/-- A statement starts with what was in scope before it. -/
theorem StmtScoped.head {top : Bool} {next : List Variable} {start : Nat} {s : Stmt}
    {tree : Resolved.Stmt} {places : List (List Variable)}
    (h : StmtScoped count top vars start s tree places next) :
    ∃ rest, places = vars :: rest := by
  cases h <;> exact ⟨_, rfl⟩

/-- Statements start with what was in scope before them, also if there are none. -/
theorem StmtsScoped.entry {top : Bool} {last : List Variable} {start : Nat} {body : List Stmt}
    {trees : List Resolved.Stmt} {places : List (List Variable)}
    (h : StmtsScoped count top vars start body trees places last)
    (hat : PartAt scopes start places) (hend : Comes scopes (start + places.length) last) :
    Comes scopes start vars := by
  cases h with
  | nil => exact hend
  | cons first others =>
    obtain ⟨rest, rfl⟩ := first.head
    exact .of_eq (partAt_append.mp hat).1.1

mutual

/-- A statement is listed with as many lists as its code has instructions. -/
theorem StmtScoped.length : ∀ {top : Bool} {vars next : List Variable} {start : Nat} {s : Stmt}
    {tree : Resolved.Stmt} {places : List (List Variable)},
    StmtScoped count top vars start s tree places next → ∀ {code : List Op},
      Code.StmtLowered pool base start tree code → places.length = code.length
  | _, _, _, _, _, _, _, .letLocal first _, _, lowered
  | _, _, _, _, _, _, _, .letGlobal first, _, lowered
  | _, _, _, _, _, _, _, .assignLocal first _, _, lowered
  | _, _, _, _, _, _, _, .assignGlobal first _, _, lowered
  | _, _, _, _, _, _, _, .ret first, _, lowered
  | _, _, _, _, _, _, _, .expr first, _, lowered => by
    cases lowered
    rename_i value
    simp [value.width]
  | _, _, _, _, _, _, _, .assignField _ _, _, lowered => by
    cases lowered with
    | setField owner value => simp [owner.width, value.width, Nat.add_assoc]
  | _, _, _, _, _, _, _, .retNull, _, lowered => by
    cases lowered
    rfl
  | _, _, _, _, _, _, _, .ifThen _ all, _, lowered
  | _, _, _, _, _, _, _, .ifElseNil _ all, _, lowered => by
    cases lowered with
    | ifThen test body =>
      rw [← test.width] at body
      simp [test.width, all.length body, Nat.add_assoc, Nat.add_comm 1]
    | ifElse notNil => exact absurd rfl notNil
  | _, _, _, _, _, _, _, .ifElse notNil _ all rest, _, lowered => by
    cases lowered with
    | ifThen => exact absurd rfl notNil
    | ifElse _ test body alternative =>
      rw [← test.width] at body alternative
      have hbody := all.length body
      rw [← hbody] at alternative
      simp [test.width, hbody, rest.length alternative, Nat.add_assoc, Nat.add_comm 1]
  | _, _, _, _, _, _, _, .loop _ all, _, lowered => by
    cases lowered with
    | loop test body =>
      rw [← test.width] at body
      simp [test.width, all.length body, Nat.add_assoc, Nat.add_comm 1]
  | _, _, _, _, _, _, _, .block all, _, lowered => by
    cases lowered with
    | @ifThen _ _ _ c b test body =>
      have hone : c.length = 1 := test.width.symm
      rw [hone] at body
      simp [hone, all.length body, Nat.add_comm 2, Nat.add_comm 1, Nat.add_assoc]
    | ifElse notNil => exact absurd rfl notNil

/-- Statements are listed with as many lists as their code has instructions. -/
theorem StmtsScoped.length : ∀ {top : Bool} {vars last : List Variable} {start : Nat}
    {body : List Stmt} {trees : List Resolved.Stmt} {places : List (List Variable)},
    StmtsScoped count top vars start body trees places last → ∀ {code : List Op},
      Code.StmtsLowered pool base start trees code → places.length = code.length
  | _, _, _, _, _, _, _, .nil, _, lowered => by
    cases lowered
    rfl
  | _, _, _, _, _, _, _, .cons first others, _, lowered => by
    cases lowered with
    | cons head tail =>
      have hfirst := first.length head
      rw [← hfirst] at tail
      rw [List.length_append, List.length_append, hfirst, others.length tail]

end

/-- A condition, and the jump that it decides about. -/
theorem Binds.fits_test {e : Expr} {tree : Resolved.Expr} (h : Binds vars e tree) {start : Nat}
    {code : List Op} {target : Nat} (lowered : Code.Lowered pool base start tree code)
    (hscopes : PartAt scopes start (List.replicate (tree.width + 1) vars))
    (hnext : Comes scopes (start + tree.width + 1) vars) (htarget : Comes scopes target vars) :
    Throughout (Fits scopes) start (code ++ [.jumpIfFalse target]) := by
  refine h.fits_concat lowered hscopes fun hat => fits_of_leads hat nofun fun next hmem => ?_
  obtain rfl | rfl : next = start + code.length + 1 ∨ next = target := by
    simpa [Op.successors] using hmem
  · rw [← lowered.width]
    exact hnext
  · exact htarget

/-- A block that is entered if a condition holds. -/
theorem Binds.fits_block {e : Expr} {tree : Resolved.Expr} (h : Binds vars e tree) {start : Nat}
    {c b : List Op} {body : List Stmt} {trees : List Resolved.Stmt}
    {inner : List (List Variable)} {last : List Variable}
    (lowered : Code.Lowered pool base start tree c) (hlength : inner.length = b.length)
    (all : StmtsScoped count false vars (start + tree.width + 1) body trees inner last)
    (hat : PartAt scopes start (List.replicate (tree.width + 1) vars ++ inner))
    (hend : Comes scopes (start + (List.replicate (tree.width + 1) vars ++ inner).length) vars)
    (hbody : PartAt scopes (start + tree.width + 1) inner →
      Comes scopes (start + tree.width + 1 + inner.length) last →
        Throughout (Fits scopes) (start + tree.width + 1) b) :
    Throughout (Fits scopes) start (c ++ .jumpIfFalse (start + c.length + 1 + b.length) :: b) := by
  rw [partAt_append, List.length_replicate, ← Nat.add_assoc] at hat
  rw [List.length_append, List.length_replicate, ← Nat.add_assoc, ← Nat.add_assoc] at hend
  have hstop := hend.mono all.suffix
  rw [List.append_cons, throughout_append, ← lowered.width, ← hlength]
  refine ⟨h.fits_test lowered hat.1 (all.entry hat.2 hstop) hend, ?_⟩
  rw [List.length_append, List.length_singleton, ← lowered.width, ← Nat.add_assoc]
  exact hbody hat.2 hstop

mutual

/-- The lists of a statement fit its code. -/
theorem StmtScoped.fits : ∀ {top : Bool} {vars next : List Variable} {start : Nat} {s : Stmt}
    {tree : Resolved.Stmt} {places : List (List Variable)},
    StmtScoped count top vars start s tree places next → ∀ {code : List Op},
      Code.StmtLowered pool base start tree code → PartAt scopes start places →
        Comes scopes (start + places.length) next → Throughout (Fits scopes) start code
  | _, vars, _, start, _, _, _, .letLocal first room, _, lowered, hat, hend => by
    cases lowered with
    | @storeLocal _ _ _ code value =>
      rw [List.length_replicate, ← Nat.add_assoc, value.width] at hend
      refine first.fits_concat value hat fun hlast => ⟨vars, hlast, nofun, fun next hnext => ?_⟩
      obtain rfl : next = start + code.length + 1 := by simpa [Op.successors] using hnext
      obtain ⟨after, hafter, hsuffix⟩ := hend
      exact ⟨after, hafter, .inr ⟨_, rfl, rfl, hsuffix⟩⟩
  | _, _, _, _, _, _, _, .letGlobal first, _, lowered, hat, hend
  | _, _, _, _, _, _, _, .assignLocal first _, _, lowered, hat, hend
  | _, _, _, _, _, _, _, .assignGlobal first _, _, lowered, hat, hend
  | _, _, _, _, _, _, _, .expr first, _, lowered, hat, hend => by
    cases lowered
    rename_i value
    rw [List.length_replicate, ← Nat.add_assoc, value.width] at hend
    exact first.fits_concat value hat fun hlast => fits_next hlast rfl nofun hend
  | _, _, _, _, _, _, _, .ret first, _, lowered, hat, _ => by
    cases lowered with
    | ret value =>
      exact first.fits_concat value hat fits_ret
  | _, _, _, _, _, _, _, .retNull, _, lowered, hat, _ => by
    cases lowered
    exact ⟨fits_next hat.1 rfl nofun (.of_eq hat.2.1), fits_ret hat.2.1, trivial⟩
  | _, vars, _, start, _, _, _, .assignField receiver first, _, lowered, hat, hend => by
    cases lowered with
    | @setField _ _ _ _ _ o v owner value =>
      have howner := owner.width
      have hvalue := value.width
      rw [List.length_replicate, howner, hvalue] at hend
      have hscopes (place : Nat) (hlow : start ≤ place)
          (hhigh : place ≤ start + o.length + v.length) : scopes[place]? = some vars :=
        hat.replicate hlow (by omega)
      rw [throughout_append, throughout_append, List.length_append, ← Nat.add_assoc]
      refine ⟨⟨receiver.fits owner fun place hlow hhigh => hscopes place hlow (by omega),
        first.fits value fun place hlow hhigh => hscopes place (by omega) hhigh⟩,
        fits_next (hscopes _ (by omega) (Nat.le_refl _)) rfl nofun ?_, trivial⟩
      simpa only [Nat.add_assoc] using hend
  | _, _, _, _, _, _, _, .ifThen condition all, _, lowered, hat, hend
  | _, _, _, _, _, _, _, .ifElseNil condition all, _, lowered, hat, hend => by
    cases lowered with
    | ifThen test body =>
      rw [← test.width] at body
      exact condition.fits_block test (all.length body) all hat hend (all.fits body)
    | ifElse notNil => exact absurd rfl notNil
  | _, vars, _, start, _, _, _, @StmtScoped.block _ _ _ _ _ span _ _ _ all, _, lowered, hat,
      hend => by
    cases lowered with
    | ifThen test body =>
      rw [← test.width] at body
      exact (@Binds.bool vars true span).fits_block test (all.length body) all hat hend
        (all.fits body)
    | ifElse notNil => exact absurd rfl notNil
  | _, vars, _, start, _, _, _, .loop condition all, _, lowered, hat, hend => by
    cases lowered with
    | loop test body =>
      rw [← test.width] at body
      simp only [partAt_append, List.length_append, List.length_replicate, List.length_singleton,
        ← Nat.add_assoc] at hat hend
      obtain ⟨⟨hcondition, hbody⟩, hback, -⟩ := hat
      have hentry := all.entry hbody (.of_eq hback)
      have hstart : scopes[start]? = some vars := hcondition.1
      rw [throughout_append, List.append_cons, throughout_append]
      simp only [List.length_append, List.length_singleton, ← Nat.add_assoc, ← test.width,
        ← all.length body]
      -- The scope of the block ends with the jump back.
      exact ⟨⟨condition.fits_test test hcondition hentry hend,
        all.fits body hbody (.of_eq hback)⟩, fits_jump hback ⟨vars, hstart, all.suffix⟩, trivial⟩
  | _, vars, _, start, _, _, _, .ifElse notNil condition all rest, _, lowered, hat, hend => by
    cases lowered with
    | ifThen => exact absurd rfl notNil
    | ifElse _ test body alternative =>
      rw [← test.width] at body alternative
      rw [← all.length body] at alternative
      simp only [partAt_append, List.length_append, List.length_replicate, List.length_cons,
        ← Nat.add_assoc] at hat hend
      obtain ⟨⟨hcondition, hbody⟩, hskip, hother⟩ := hat
      rw [Nat.add_right_comm _ _ 1] at hend
      have hentry := all.entry hbody (.of_eq hskip)
      have hentry' := rest.entry hother (hend.mono rest.suffix)
      rw [throughout_append, List.append_cons, throughout_append]
      simp only [List.length_append, List.length_singleton, ← Nat.add_assoc, ← test.width,
        ← all.length body, ← rest.length alternative]
      -- The scope of the block ends with the jump over the other one.
      exact ⟨⟨condition.fits_test test hcondition hentry hentry',
        all.fits body hbody (.of_eq hskip)⟩, fits_jump hskip (hend.mono all.suffix),
        rest.fits alternative hother (hend.mono rest.suffix)⟩

/-- The lists of statements fit their code. -/
theorem StmtsScoped.fits : ∀ {top : Bool} {vars last : List Variable} {start : Nat}
    {body : List Stmt} {trees : List Resolved.Stmt} {places : List (List Variable)},
    StmtsScoped count top vars start body trees places last → ∀ {code : List Op},
      Code.StmtsLowered pool base start trees code → PartAt scopes start places →
        Comes scopes (start + places.length) last → Throughout (Fits scopes) start code
  | _, _, _, _, _, _, _, .nil, _, lowered, _, _ => by
    cases lowered
    trivial
  | _, _, _, _, _, _, _, .cons first others, _, lowered, hat, hend => by
    cases lowered with
    | cons head tail =>
      rw [partAt_append] at hat
      rw [List.length_append, ← Nat.add_assoc] at hend
      rw [← first.length head] at tail
      rw [throughout_append, ← first.length head]
      exact ⟨first.fits head hat.1 (others.entry hat.2 hend), others.fits tail hat.2 hend⟩

end

end Scope

end ScriptHost
