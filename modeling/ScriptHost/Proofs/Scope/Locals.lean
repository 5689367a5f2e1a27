import ScriptHost.Proofs.Machine.Framewise
import ScriptHost.Proofs.Scope.Lifetimes
import ScriptHost.Proofs.Scope.Routines
import ScriptHost.Proofs.Trees.History
/-!
# Local variables

What becomes of the local variables of a unit that has no error. At every point of a body the
variables in scope have slots of their own, of which the parameters have the first. And whichever
way through the code leads to an instruction that reads a variable, the variable has got its first
value on the way, from the instruction of its `let`, and has been in scope ever since: no variable
is ever read for another one that had the slot before.

The main statement is `locals_are_lexical`.
-/

set_option autoImplicit false

namespace ScriptHost

namespace Scope

variable {vars : List Variable} {count : Nat} {pool : Code.Pool} {base : Nat}
  {scopes : Array (List Variable)}

/-! ## Slots -/

/-- Variables that are in scope at a point of a routine with these parameters: the parameters, and
in front of them variables with a first value. Their slots are counted from the oldest one on. -/
structure Counted (params : List String) (count : Nat) (vars : List Variable) : Prop where
  slots : vars.map (·.slot) = (List.range vars.length).reverse
  room : vars.length ≤ count
  params : ∃ declared, vars = declared ++ Variable.ofParams params ∧
    ∀ v ∈ declared, v.stored.isSome = true

variable {params : List String}

theorem counted_ofParams (hcount : params.length ≤ count) :
    Counted params count (Variable.ofParams params) := by
  refine ⟨?_, by simpa [Variable.ofParams] using hcount, [], rfl, nofun⟩
  rw [Variable.ofParams, List.map_reverse, List.length_reverse, List.length_mapIdx]
  congr 1
  apply List.ext_getElem
  · simp
  · intro i _ _
    simp

/-- A variable that is declared takes the slot behind the others. -/
theorem Counted.declare (h : Counted params count vars) (hroom : vars.length < count)
    (name : String) (place : Nat) :
    Counted params count (⟨name, vars.length, some place⟩ :: vars) := by
  obtain ⟨hslots, -, declared, hvars, hstored⟩ := h
  refine ⟨?_, hroom, ⟨name, vars.length, some place⟩ :: declared, ?_, ?_⟩
  · rw [List.map_cons, hslots, List.length_cons, List.range_succ, List.reverse_append]
    rfl
  · rw [List.cons_append, ← hvars]
  · exact List.forall_mem_cons.mpr ⟨rfl, hstored⟩

theorem Counted.nodup (h : Counted params count vars) : (vars.map (·.slot)).Nodup := by
  rw [h.slots, List.nodup_reverse]
  exact List.nodup_range

theorem Counted.slot_lt (h : Counted params count vars) {v : Variable} (hv : v ∈ vars) :
    v.slot < count := by
  have hslot : v.slot ∈ vars.map (·.slot) := List.mem_map_of_mem hv
  rw [h.slots, List.mem_reverse, List.mem_range] at hslot
  exact Nat.lt_of_lt_of_le hslot h.room

/-- The parameters are in scope. -/
theorem Counted.param (h : Counted params count vars) {i : Nat} {name : String}
    (hname : params[i]? = some name) : ⟨name, i, none⟩ ∈ vars := by
  obtain ⟨declared, rfl, -⟩ := h.params
  refine List.mem_append_right _ (List.mem_reverse.mpr (List.mem_mapIdx.mpr ?_))
  obtain ⟨hi, rfl⟩ := List.getElem?_eq_some_iff.mp hname
  exact ⟨i, hi, rfl⟩

/-- A variable in a slot that is no parameter's has a first value. -/
theorem Counted.stored (h : Counted params count vars) {v : Variable} (hv : v ∈ vars)
    (hslot : params.length ≤ v.slot) : ∃ place, v.stored = some place := by
  obtain ⟨declared, rfl, hstored⟩ := h.params
  obtain hv | hv := List.mem_append.mp hv
  · exact Option.isSome_iff_exists.mp (hstored v hv)
  · obtain ⟨i, hi, rfl⟩ := List.mem_mapIdx.mp (List.mem_reverse.mp hv)
    exact absurd hi (Nat.not_lt.mpr hslot)

/-- A parameter has no first value. -/
theorem stored_ofParams {v : Variable} (hv : v ∈ Variable.ofParams params) : v.stored = none := by
  obtain ⟨i, hi, rfl⟩ := List.mem_mapIdx.mp (List.mem_reverse.mp hv)
  rfl

mutual

/-- All through a statement, variables are counted, and so they are behind it. -/
theorem StmtScoped.counted : ∀ {top : Bool} {vars next : List Variable} {start : Nat} {s : Stmt}
    {tree : Resolved.Stmt} {places : List (List Variable)},
    StmtScoped count top vars start s tree places next → Counted params count vars →
      (∀ here ∈ places, Counted params count here) ∧ Counted params count next
  | _, _, _, _, _, _, _, .letLocal _ room, h =>
    ⟨fun _ hmem => List.eq_of_mem_replicate hmem ▸ h, h.declare room _ _⟩
  | _, _, _, _, _, _, _, .letGlobal _, h | _, _, _, _, _, _, _, .assignLocal _ _, h
  | _, _, _, _, _, _, _, .assignGlobal _ _, h | _, _, _, _, _, _, _, .assignField _ _, h
  | _, _, _, _, _, _, _, .ret _, h | _, _, _, _, _, _, _, .expr _, h =>
    ⟨fun _ hmem => List.eq_of_mem_replicate hmem ▸ h, h⟩
  | _, _, _, _, _, _, _, .retNull, h => ⟨by simpa using h, h⟩
  | _, _, _, _, _, _, _, .ifThen _ all, h | _, _, _, _, _, _, _, .ifElseNil _ all, h => by
    refine ⟨List.forall_mem_append.mpr ⟨fun _ hmem => ?_, (all.counted h).1⟩, h⟩
    exact List.eq_of_mem_replicate hmem ▸ h
  | _, _, _, _, _, _, _, .ifElse _ _ all rest, h => by
    obtain ⟨hinner, hlast⟩ := all.counted h
    refine ⟨List.forall_mem_append.mpr ⟨List.forall_mem_append.mpr ⟨fun _ hmem => ?_, hinner⟩,
      List.forall_mem_cons.mpr ⟨hlast, (rest.counted h).1⟩⟩, h⟩
    exact List.eq_of_mem_replicate hmem ▸ h
  | _, _, _, _, _, _, _, .loop _ all, h => by
    obtain ⟨hinner, hlast⟩ := all.counted h
    refine ⟨List.forall_mem_append.mpr ⟨List.forall_mem_append.mpr ⟨fun _ hmem => ?_, hinner⟩,
      List.forall_mem_singleton.mpr hlast⟩, h⟩
    exact List.eq_of_mem_replicate hmem ▸ h
  | _, _, _, _, _, _, _, .block all, h =>
    ⟨List.forall_mem_append.mpr ⟨by simpa using h, (all.counted h).1⟩, h⟩

/-- All through statements, variables are counted, and so they are behind them. -/
theorem StmtsScoped.counted : ∀ {top : Bool} {vars last : List Variable} {start : Nat}
    {body : List Stmt} {trees : List Resolved.Stmt} {places : List (List Variable)},
    StmtsScoped count top vars start body trees places last → Counted params count vars →
      (∀ here ∈ places, Counted params count here) ∧ Counted params count last
  | _, _, _, _, _, _, _, .nil, h => ⟨nofun, h⟩
  | _, _, _, _, _, _, _, .cons first others, h => by
    obtain ⟨hhere, hnext⟩ := first.counted h
    obtain ⟨hmore, hlast⟩ := others.counted hnext
    exact ⟨List.forall_mem_append.mpr ⟨hhere, hmore⟩, hlast⟩

end

/-! ## Chunks -/

/-- Lists of the variables in scope for all instructions of a chunk that starts with some of these
variables. -/
structure Scoping (vars : List Variable) (scopes : Array (List Variable)) (ops : Array Op) :
    Prop where
  size : scopes.size = ops.size
  entry : Comes scopes 0 vars
  fits : ∀ (place : Nat) (op : Op), ops[place]? = some op → Fits scopes place op

/-- Whichever way leads to a place, a variable in scope there got its first value on the way, if it
is no variable that the chunk starts with, and has been in scope ever since. -/
theorem Scoping.stored {ops : Array Op} (h : Scoping vars scopes ops)
    (hvars : ∀ v ∈ vars, v.stored = none) {before : List Nat} {place : Nat}
    (way : Walk ops before place) :
    ∃ here, scopes[place]? = some here ∧ ∀ v ∈ here, ∀ first, v.stored = some first →
      ∃ recent earlier, before = recent ++ first :: earlier ∧
        ops[first]? = some (.storeLocal v.slot) ∧
        ∀ p ∈ recent, ∃ there, scopes[p]? = some there ∧ v ∈ there := by
  induction way with
  | start =>
    obtain ⟨here, hhere, hsuffix⟩ := h.entry
    refine ⟨here, hhere, fun v hv first hfirst => ?_⟩
    rw [hvars v (hsuffix.mem hv)] at hfirst
    cases hfirst
  | @step before place next op way opAt leads ih =>
    obtain ⟨here, hhere, hstored⟩ := ih
    obtain ⟨here', hhere', -, hleads⟩ := h.fits place op opAt
    obtain rfl : here = here' := Option.some.inj (hhere.symm.trans hhere')
    obtain ⟨after, hafter, hfollows⟩ := hleads next leads
    have hold : ∀ v ∈ here, ∀ first, v.stored = some first →
        ∃ recent earlier, place :: before = recent ++ first :: earlier ∧
          ops[first]? = some (.storeLocal v.slot) ∧
          ∀ p ∈ recent, ∃ there, scopes[p]? = some there ∧ v ∈ there := by
      intro v hv first hfirst
      obtain ⟨recent, earlier, rfl, hop, hrecent⟩ := hstored v hv first hfirst
      exact ⟨place :: recent, earlier, rfl, hop,
        List.forall_mem_cons.mpr ⟨⟨here, hhere, hv⟩, hrecent⟩⟩
    refine ⟨after, hafter, fun v hv first hfirst => ?_⟩
    obtain hsuffix | ⟨new, hnew, rfl, hsuffix⟩ := hfollows
    · exact hold v (hsuffix.mem hv) first hfirst
    · obtain rfl | hv := List.mem_cons.mp (hsuffix.mem hv)
      · obtain rfl : place = first := Option.some.inj (hnew.symm.trans hfirst)
        exact ⟨[], before, rfl, opAt, nofun⟩
      · exact hold v hv first hfirst

/-- The lists for a function body, with the return at its end. -/
theorem StmtsScoped.body_scoping {top : Bool} {last : List Variable} {body : List Stmt}
    {trees : List Resolved.Stmt} {places : List (List Variable)} {ops : Array Op}
    (h : StmtsScoped count top vars 0 body trees places last)
    (lowered : Code.BodyLowered pool base trees ops.toList) :
    Scoping vars (places ++ [last, last]).toArray ops := by
  obtain ⟨inner, hinner, hops⟩ := lowered
  have hlength := h.length hinner
  have hat := partAt_toList (places ++ [last, last]).toArray
  simp only [partAt_append, PartAt, Nat.zero_add] at hat
  obtain ⟨hplaces, hnull, hret, -⟩ := hat
  have hend : Comes (places ++ [last, last]).toArray (0 + places.length) last := by
    rw [Nat.zero_add]
    exact .of_eq hnull
  have hfits : Throughout (Fits (places ++ [last, last]).toArray) 0 ops.toList := by
    rw [hops, throughout_append, Nat.zero_add, ← hlength]
    exact ⟨h.fits hinner hplaces hend, fits_next hnull rfl (by simp) (.of_eq hret),
      fits_ret hret, trivial⟩
  refine ⟨?_, h.entry hplaces hend, fun place op hop => ?_⟩
  · rw [← Array.length_toList, ← Array.length_toList, hops]
    simp [hlength]
  · rw [← Array.getElem?_toList] at hop
    simpa using hfits.op hop

/-- Statements in two goes. -/
theorem StmtsScoped.split {top : Bool} {last : List Variable} {start : Nat} {body : List Stmt}
    {front rest : List Resolved.Stmt} {places : List (List Variable)}
    (h : StmtsScoped count top vars start body (front ++ rest) places last) :
    ∃ first second here more middle, body = first ++ second ∧ places = here ++ more ∧
      StmtsScoped count top vars start first front here middle ∧
      StmtsScoped count top middle (start + here.length) second rest more last := by
  induction front generalizing vars start body places with
  | nil => exact ⟨[], body, [], places, vars, rfl, rfl, .nil, h⟩
  | cons tree front ih =>
    cases h with
    | @cons _ _ _ _ _ s _ _ _ here more head tail =>
      obtain ⟨first, second, here', more', middle, rfl, rfl, hfirst, hsecond⟩ := ih tail
      refine ⟨s :: first, second, here ++ here', more', middle, rfl,
        (List.append_assoc ..).symm, .cons head hfirst, ?_⟩
      rwa [List.length_append, ← Nat.add_assoc]

/-- The lists for a top level that returns the value of the expression at its end. -/
theorem StmtsScoped.result_scoping {last : List Variable} {front : List Stmt}
    {trees : List Resolved.Stmt} {here : List (List Variable)} {result : Expr}
    {value : Resolved.Expr} {ops : Array Op} {inner code : List Op}
    (h : StmtsScoped count true vars 0 front trees here last) (first : Binds last result value)
    (hinner : Code.StmtsLowered pool base 0 trees inner)
    (hvalue : Code.Lowered pool base inner.length value code)
    (hops : ops.toList = inner ++ code ++ [.ret, .pushNull, .ret]) :
    Scoping vars (here ++ List.replicate (value.width + 1) last ++ [last, last]).toArray ops := by
  have hlength := h.length hinner
  have hwidth := hvalue.width
  generalize hscopes :
    (here ++ List.replicate (value.width + 1) last ++ [last, last]).toArray = scopes
  have hat := partAt_toList scopes
  rw [← hscopes, List.toList_toArray, hscopes] at hat
  simp only [partAt_append, PartAt, List.length_append, List.length_replicate, Nat.zero_add] at hat
  obtain ⟨⟨hhere, hlast⟩, hnull, hret, -⟩ := hat
  have hend : Comes scopes (0 + here.length) last := by
    rw [Nat.zero_add]
    exact .of_eq hlast.1
  have hfits : Throughout (Fits scopes) 0 ops.toList := by
    have hparts : ops.toList = inner ++ (code ++ [.ret]) ++ [.pushNull, .ret] := by simp [hops]
    rw [hparts, throughout_append, throughout_append, List.length_append, List.length_append,
      List.length_singleton, Nat.zero_add, Nat.zero_add, ← hlength, ← hwidth]
    exact ⟨⟨h.fits hinner hhere hend, first.fits_concat (hlength ▸ hvalue) hlast fits_ret⟩,
      fits_next hnull rfl (by simp) (.of_eq hret), fits_ret hret, trivial⟩
  refine ⟨?_, h.entry hhere hend, fun place op hop => ?_⟩
  · rw [← Array.length_toList, ← Array.length_toList, hops, ← hscopes]
    simp [hlength, hwidth]
  · rw [← Array.getElem?_toList] at hop
    simpa using hfits.op hop

/-- The lists for a top level. What returns a value at its end stands where the value would have
been thrown away. -/
theorem StmtsScoped.topLevel_scoping {last : List Variable} {body : List Stmt}
    {trees : List Resolved.Stmt} {places : List (List Variable)} {ops : Array Op}
    {returnsValue : Bool} (h : StmtsScoped count true vars 0 body trees places last)
    (lowered : Code.TopLevelLowered pool base returnsValue trees ops.toList) :
    Scoping vars (places ++ [last, last]).toArray ops := by
  unfold Code.TopLevelLowered at lowered
  cases hresult : Resolved.resultOf returnsValue trees with
  | none =>
    simp only [hresult] at lowered
    exact h.body_scoping lowered
  | some value =>
    simp only [hresult] at lowered
    obtain ⟨inner, code, hinner, hvalue, hops⟩ := lowered
    rw [Code.resultOf_eq hresult] at h
    obtain ⟨_, _, here, more, middle, rfl, rfl, hfront, hrest⟩ := h.split
    cases hrest with
    | cons head tail =>
      cases tail
      cases head with
      | expr first =>
        rw [List.append_nil]
        exact hfront.result_scoping first hinner hvalue hops

/-! ## Units -/

/-- Variables in scope at a point of a routine: the parameters among them have the first slots, and
no two variables have one slot. -/
structure Apart (params : List String) (slots : Nat) (vars : List Variable) : Prop where
  params : ∀ (i : Nat) (name : String), params[i]? = some name → ⟨name, i, none⟩ ∈ vars
  distinct : (vars.map (·.slot)).Nodup
  inside : ∀ v ∈ vars, v.slot < slots

theorem Counted.apart (h : Counted params count vars) : Apart params count vars :=
  ⟨fun _ _ => h.param, h.nodup, fun _ => h.slot_lt⟩

/-- There are lists of the variables in scope for all instructions. Whichever way leads to an
instruction that reads a slot which is no parameter's, the variable that has the slot there got its
first value on the way, and has been in scope ever since. -/
structure Alive (params : List String) (scopes : Array (List Variable)) (ops : Array Op) :
    Prop where
  size : scopes.size = ops.size
  stored : ∀ (before : List Nat) (place slot : Nat), Walk ops before place →
    ops[place]? = some (.loadLocal slot) → params.length ≤ slot →
      ∃ v first recent earlier, (∃ here, scopes[place]? = some here ∧ v ∈ here) ∧
        v.slot = slot ∧ v.stored = some first ∧ before = recent ++ first :: earlier ∧
        ops[first]? = some (.storeLocal slot) ∧
        ∀ p ∈ recent, ∃ there, scopes[p]? = some there ∧ v ∈ there

theorem Scoping.alive {ops : Array Op} {places : List (List Variable)} {last : List Variable}
    (h : Scoping (Variable.ofParams params) (places ++ [last, last]).toArray ops)
    (hcounted : ∀ here ∈ places, Counted params count here) (hlast : Counted params count last) :
    Alive params (places ++ [last, last]).toArray ops := by
  have hall : ∀ here ∈ places ++ [last, last], Counted params count here :=
    List.forall_mem_append.mpr ⟨hcounted, by simpa using hlast⟩
  refine ⟨h.size, fun before place slot way hop hslot => ?_⟩
  obtain ⟨here, hhere, hloads, -⟩ := h.fits place _ hop
  obtain ⟨v, hv, rfl⟩ := hloads slot rfl
  obtain ⟨here', hhere', hstored⟩ := h.stored (fun _ => stored_ofParams) way
  obtain rfl : here = here' := Option.some.inj (hhere.symm.trans hhere')
  obtain ⟨first, hfirst⟩ :=
    (hall here (List.mem_toArray.mp (Array.mem_of_getElem? hhere))).stored hv hslot
  obtain ⟨recent, earlier, hbefore, hstore, hrecent⟩ := hstored v hv first hfirst
  exact ⟨v, first, recent, earlier, ⟨here, hhere, hv⟩, rfl, hfirst, hbefore, hstore, hrecent⟩

end Scope

open Scope in
/-- In a unit without errors every name of a local variable stands for the newest variable of the
name that is in scope, and variables that are in scope together never have one slot: routine by
routine, and in the top level. In the code no instruction reads a variable before its `let` has
stored a first value, nor after the end of its block. -/
theorem locals_are_lexical {texts : List (List Item)} {env : Env}
    (hclean : (resolve texts env).2.any Diagnostic.isError = false) :
    (∀ (index : Nat) (r : Routine), (Item.routinesAll texts.flatten)[index]? = some r →
      r.params.length ≤ maxLocals →
        ∃ f places last, (resolve texts env).1.functions[index]? = some f ∧
          f.arity = r.params.length ∧
          StmtsScoped f.localCount false (Variable.ofParams r.params) 0 r.body f.body places last ∧
          (∀ vars ∈ last :: places, Apart r.params f.localCount vars) ∧
          ∀ (base : Nat) (compiled : CompiledUnit),
            (resolve texts env).1.compile base = .ok compiled →
              ∃ g, compiled.functions[index]? = some g ∧ g.chunk.localCount = f.localCount ∧
                Alive r.params (places ++ [last, last]).toArray g.chunk.ops) ∧
      ∃ places,
        StmtsScoped (resolve texts env).1.topLevelLocals true [] 0
          (Item.statementsAll texts.flatten) (resolve texts env).1.topLevel places [] ∧
        (∀ vars ∈ places, Apart [] (resolve texts env).1.topLevelLocals vars) ∧
        ∀ (base : Nat) (compiled : CompiledUnit),
          (resolve texts env).1.compile base = .ok compiled →
            compiled.topLevel.localCount = (resolve texts env).1.topLevelLocals ∧
              Alive [] (places ++ [[], []]).toArray compiled.topLevel.ops := by
  obtain ⟨hroutines, places, htop⟩ := resolve_scoped hclean
  have hnone : Counted [] (resolve texts env).1.topLevelLocals [] :=
    counted_ofParams (Nat.zero_le _)
  obtain ⟨htopCounted, htopLast⟩ := htop.counted hnone
  refine ⟨fun index r hr hparams => ?_, places, htop, ?_, fun base compiled hcompiled => ?_⟩
  · obtain ⟨f, hf, harity, hscoped⟩ := hroutines index r hr
    obtain ⟨hslots, places, last, hbody⟩ := hscoped hparams
    obtain ⟨hcounted, hlast⟩ := hbody.counted (counted_ofParams hslots)
    refine ⟨f, places, last, hf, harity, hbody, ?_, fun base compiled hcompiled => ?_⟩
    · exact List.forall_mem_cons.mpr ⟨hlast.apart, fun vars hvars => (hcounted vars hvars).apart⟩
    · have hlowered := (Code.compile_ok hcompiled).functions
      rw [← Array.getElem?_toList] at hf
      have hbound := (List.getElem?_eq_some_iff.mp hf).1
      rw [← hlowered.length_eq] at hbound
      have hg := List.getElem?_eq_getElem hbound
      have hfunction := forall₂_getElem? hlowered hg hf
      rw [Array.getElem?_toList] at hg
      exact ⟨_, hg, hfunction.localCount, (hbody.body_scoping hfunction.body).alive hcounted hlast⟩
  · exact fun vars hvars => (htopCounted vars hvars).apart
  · have hlowered := Code.compile_ok hcompiled
    have hscoping : Scoping (Variable.ofParams []) (places ++ [[], []]).toArray
        compiled.topLevel.ops := htop.topLevel_scoping hlowered.topLevel
    exact ⟨hlowered.topLevelLocals, hscoping.alive htopCounted htopLast⟩

/-- A function with two blocks that share a slot, one of them a loop, and a shadowed parameter. -/
def siblingBlocks : Item :=
  .function {
    name := "f"
    params := ["n"]
    body := [
      .ifThen (.ident "n" .nowhere) [
        .letVar "n" (.ident "n" .nowhere) .nowhere,
        .assign (.ident "n" .nowhere) (.ident "n" .nowhere) .nowhere] .nowhere,
      .loop (.ident "n" .nowhere) [
        .letVar "a" (.ident "n" .nowhere) .nowhere,
        .assign (.ident "n" .nowhere) (.ident "a" .nowhere) .nowhere] .nowhere,
      .ret (some (.ident "n" .nowhere)) .nowhere]
    span := .nowhere }

open Scope in
/-- The variables of the two blocks are kept apart. -/
theorem sibling_blocks_are_lexical :
    let env : Env := { program := {}, lookup := fun _ _ => .notAModule, warningLevel := 2 }
    (resolve [[siblingBlocks]] env).2.any Diagnostic.isError = false ∧
      ∃ r f places last compiled g, (Item.routinesAll [siblingBlocks])[0]? = some r ∧
        r.params = ["n"] ∧ (resolve [[siblingBlocks]] env).1.functions[0]? = some f ∧
        StmtsScoped f.localCount false (Variable.ofParams ["n"]) 0 r.body f.body places last ∧
        (∀ vars ∈ last :: places, Apart ["n"] f.localCount vars) ∧
        (resolve [[siblingBlocks]] env).1.compile 0 = .ok compiled ∧
        compiled.functions[0]? = some g ∧
        Alive ["n"] (places ++ [last, last]).toArray g.chunk.ops := by
  intro env
  have hclean : (resolve [[siblingBlocks]] env).2.any Diagnostic.isError = false := by
    decide +kernel
  obtain ⟨compiled, hcompiled⟩ :
      ∃ compiled, (resolve [[siblingBlocks]] env).1.compile 0 = .ok compiled :=
    ⟨_, by with_unfolding_all rfl⟩
  obtain ⟨f, places, last, hf, -, hscoped, hapart, hcode⟩ :=
    (locals_are_lexical hclean).1 0 _ rfl (by decide)
  obtain ⟨g, hg, -, halive⟩ := hcode 0 compiled hcompiled
  exact ⟨hclean, _, f, places, last, compiled, g, rfl, rfl, hf, hscoped, hapart, hcompiled, hg,
    halive⟩

end ScriptHost
