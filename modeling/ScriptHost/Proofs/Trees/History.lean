import Mathlib.Data.List.Forall2
import ScriptHost.Proofs.Trees.Calls
/-!
# Programs and the trees that they are made from

A program grows by linking units one after the other, and the trees of the units grow beside it.
Whatever the order, program and trees match: linking puts code and tree under the same number, and
never takes away what code that was linked before refers to.
-/

set_option autoImplicit false

namespace ScriptHost

open Resolved (Trees LinkedFunction)

/-- A program that was empty once and has had units linked to it, and their trees. -/
inductive BuiltFrom : Program → Trees → Prop
  | empty : BuiltFrom {} {}
  | link {program next : Program} {trees : Trees} {unit : Resolved.Unit} {base : Nat}
      {compiled : CompiledUnit} {allowed : AllowedModules} (before : BuiltFrom program trees)
      (made : unit.compile base = .ok compiled)
      (linked : program.link compiled allowed = .ok next) :
      BuiltFrom next (trees.append unit allowed)

namespace Code

/-- The code of a function: what it has from the tree, and the layout of its chunk. -/
structure FunctionLowered (hostCalls : Array (String × String)) (base : Nat) (f : Function)
    (t : Resolved.Function) : Prop where
  name : f.name = t.name
  arity : f.arity = t.arity
  localCount : f.chunk.localCount = t.localCount
  body : BodyLowered ⟨f.chunk.constants, hostCalls⟩ base t.body f.chunk.ops.toList

/-- A chunk that has been made keeps the host calls listed before it. -/
theorem chunk_ok {localCount : Nat} {code : Emit (Array Op)} {before after : Pool} {made : Chunk}
    (h : chunk localCount code before = .ok made after) :
    code ⟨#[], before.hostCalls⟩ = .ok made.ops after ∧ made.constants = after.constants ∧
      made.localCount = localCount := by
  simp only [chunk, bind_eq_ok] at h
  obtain ⟨_, _, hreset, ops, _, hops, _, _, hget, h⟩ := h
  cases hreset
  cases hget
  obtain ⟨rfl, rfl⟩ := pure_eq_ok.mp h
  exact ⟨hops, rfl, rfl⟩

/-- Host calls that are listed stay listed. -/
def Lists (small large : Array (String × String)) : Prop :=
  ∀ (index : Nat) (call : String × String), small[index]? = some call → large[index]? = some call

/-- A pool in which the host calls are those of the whole unit. -/
theorem Pool.Makes.withHostCalls {before after : Pool} {layout : Pool → Prop}
    (h : before.Makes after layout) {hostCalls : Array (String × String)}
    (hlist : Lists after.hostCalls hostCalls) : layout ⟨after.constants, hostCalls⟩ :=
  h.right _ ⟨fun _ _ hv => hv, hlist⟩

/-- The code made for a function. -/
theorem function_ok {base : Nat} {t : Resolved.Function} {before after : Pool} {f : Function}
    (h : function base t before = .ok f after) :
    Lists before.hostCalls after.hostCalls ∧
      ∀ hostCalls, Lists after.hostCalls hostCalls → FunctionLowered hostCalls base f t := by
  simp only [function, bind_eq_ok, pure_eq_ok] at h
  obtain ⟨made, _, hmade, rfl, rfl⟩ := h
  obtain ⟨hcode, hconstants, hlocals⟩ := chunk_ok hmade
  have hmakes := body_lowered hcode
  refine ⟨hmakes.kept.hostCalls, fun hostCalls hlist => ⟨rfl, rfl, hlocals, ?_⟩⟩
  rw [hconstants]
  exact hmakes.withHostCalls hlist

/-- The code made for functions, one after the other. -/
theorem functions_ok {base : Nat} {trees : List Resolved.Function} {before after : Pool}
    {made : List Function} (h : trees.mapM (function base) before = .ok made after) :
    Lists before.hostCalls after.hostCalls ∧
      ∀ hostCalls, Lists after.hostCalls hostCalls →
        List.Forall₂ (FunctionLowered hostCalls base) made trees := by
  induction trees generalizing before made with
  | nil =>
    obtain ⟨rfl, rfl⟩ := pure_eq_ok.mp (by simpa only [List.mapM_nil] using h)
    exact ⟨fun _ _ hc => hc, fun _ _ => .nil⟩
  | cons t rest ih =>
    simp only [List.mapM_cons, bind_eq_ok, pure_eq_ok] at h
    obtain ⟨f, middle, hf, others, _, hothers, rfl, rfl⟩ := h
    obtain ⟨hkept, hfirst⟩ := function_ok hf
    obtain ⟨hkept', hrest⟩ := ih hothers
    exact ⟨fun i c hc => hkept' i c (hkept i c hc), fun hostCalls hlist =>
      .cons (hfirst hostCalls fun i c hc => hlist i c (hkept' i c hc)) (hrest hostCalls hlist)⟩

/-- The code of a unit: what it has from the tree, and the layout of all its chunks. -/
structure UnitLowered (base : Nat) (compiled : CompiledUnit) (unit : Resolved.Unit) : Prop where
  bindingBase : compiled.bindingBase = base
  functionBase : compiled.functionBase = unit.functionBase
  classBase : compiled.classBase = unit.classBase
  classes : compiled.classes = unit.classes
  functionNames : compiled.functionNames = unit.functionNames
  globals : compiled.globals = unit.globals
  returnsValue : compiled.returnsValue = unit.returnsValue
  functions : List.Forall₂ (FunctionLowered compiled.hostCalls base) compiled.functions.toList
    unit.functions.toList
  topLevel : TopLevelLowered ⟨compiled.topLevel.constants, compiled.hostCalls⟩ base
    unit.returnsValue unit.topLevel compiled.topLevel.ops.toList
  topLevelLocals : compiled.topLevel.localCount = unit.topLevelLocals

/-- The code made for a unit. -/
theorem compile_ok {unit : Resolved.Unit} {base : Nat} {compiled : CompiledUnit}
    (h : unit.compile base = .ok compiled) : UnitLowered base compiled unit := by
  unfold Resolved.Unit.compile at h
  cases hunit : Code.unit base unit {} with
  | error e after =>
    rw [hunit] at h
    cases h
  | ok made after =>
    rw [hunit] at h
    cases h
    simp only [Code.unit, bind_eq_ok, pure_eq_ok, Array.mapM_eq_mapM_toList,
      map_eq_pure_bind] at hunit
    obtain ⟨functions, _, ⟨list, _, hlist, rfl, rfl⟩, top, _, htop, pool, _, hget, rfl, rfl⟩ :=
      hunit
    cases hget
    obtain ⟨-, hfunctions⟩ := functions_ok hlist
    obtain ⟨hcode, hconstants, hlocals⟩ := chunk_ok htop
    have hmakes := topLevel_lowered hcode
    refine ⟨rfl, rfl, rfl, rfl, rfl, rfl, rfl, ?_, ?_, hlocals⟩
    · exact hfunctions _ hmakes.kept.hostCalls
    · rw [hconstants]
      exact hmakes.withHostCalls fun _ _ hc => hc

end Code

/-- Members of two lists at one place are related if the lists are. -/
theorem forall₂_getElem? {α β : Type} {related : α → β → Prop} {xs : List α} {ys : List β}
    (h : List.Forall₂ related xs ys) {index : Nat} {x : α} {y : β} (hx : xs[index]? = some x)
    (hy : ys[index]? = some y) : related x y := by
  induction h generalizing index with
  | nil => simp at hx
  | cons first _ ih =>
    cases index with
    | zero =>
      simp only [List.getElem?_cons_zero, Option.some.injEq] at hx hy
      exact hx ▸ hy ▸ first
    | succ index =>
      simp only [List.getElem?_cons_succ] at hx hy
      exact ih hx hy

/-- A unit is linked only where its numbers start, and is appended then. -/
theorem link_ok {program next : Program} {compiled : CompiledUnit} {allowed : AllowedModules}
    (h : program.link compiled allowed = .ok next) :
    compiled.functionBase = program.functions.size ∧
      compiled.classBase = program.classes.size ∧
      compiled.bindingBase = program.bindings.size ∧ next = program.append compiled allowed := by
  unfold Program.link at h
  split at h
  · rename_i haccepts
    simp only [Program.accepts, Bool.and_eq_true, beq_iff_eq] at haccepts
    cases h
    exact ⟨haccepts.1.1, haccepts.1.2, haccepts.2, rfl⟩
  · cases h

/-- Bindings stay bound when a unit is appended. -/
theorem Bound.append {program : Program} {pool : Code.Pool} {base : Nat}
    {allowed : AllowedModules} (h : Bound program pool base allowed) (compiled : CompiledUnit)
    (others : AllowedModules) : Bound (program.append compiled others) pool base allowed := by
  intro index module function hcall
  have hold := h index module function hcall
  have hinside := (Array.getElem?_eq_some_iff.mp hold).1
  rw [Program.append, Array.getElem?_append_left hinside]
  exact hold

/-- The bindings of a unit are bound once it is appended. -/
theorem bound_append (program : Program) (compiled : CompiledUnit) (allowed : AllowedModules)
    (constants : Array Value) :
    Bound (program.append compiled allowed) ⟨constants, compiled.hostCalls⟩ program.bindings.size
      allowed := by
  intro index module function hcall
  rw [Program.append, Array.getElem?_append_right (Nat.le_add_right ..), Nat.add_sub_cancel_left,
    Array.getElem?_map]
  rw [show compiled.hostCalls[index]? = some (module, function) from hcall]
  rfl

/-- A function matches its tree whatever is appended to the program. -/
theorem FunctionMatches.append {program : Program} {f : Function} {t : LinkedFunction}
    (h : FunctionMatches program f t) (compiled : CompiledUnit) (others : AllowedModules) :
    FunctionMatches (program.append compiled others) f t := by
  obtain ⟨pool, base, hconstants, hbody, hbound⟩ := h.lowered
  exact ⟨h.name, h.arity, h.localCount, pool, base, hconstants, hbody,
    hbound.append compiled others⟩

/-- Program and trees match when a unit is appended to both. -/
theorem Matches.append {program : Program} {trees : Trees} {unit : Resolved.Unit}
    {compiled : CompiledUnit} (h : Matches program trees)
    (hunit : Code.UnitLowered program.bindings.size compiled unit) (allowed : AllowedModules) :
    Matches (program.append compiled allowed) (trees.append unit allowed) where
  classes := by
    simp only [Program.append, Trees.append, h.classes, hunit.classes]
  size := by
    have hlength := hunit.functions.length_eq
    rw [Array.length_toList, Array.length_toList] at hlength
    simp only [Program.append, Trees.append, Array.size_append, Array.size_map, h.size, hlength]
  functions := by
    intro id f t hf ht
    simp only [Program.append, Trees.append] at hf ht
    by_cases hold : id < program.functions.size
    · rw [Array.getElem?_append_left hold] at hf
      rw [Array.getElem?_append_left (h.size ▸ hold)] at ht
      exact (h.functions id f t hf ht).append compiled allowed
    · have hnew : program.functions.size ≤ id := Nat.le_of_not_lt hold
      rw [Array.getElem?_append_right hnew] at hf
      rw [Array.getElem?_append_right (h.size ▸ hnew), ← h.size, Array.getElem?_map] at ht
      obtain ⟨tree, htree, rfl⟩ := Option.map_eq_some_iff.mp ht
      rw [← Array.getElem?_toList] at hf htree
      have hlowered := forall₂_getElem? hunit.functions hf htree
      exact ⟨hlowered.name, hlowered.arity, hlowered.localCount, _, _, rfl, hlowered.body,
        bound_append program compiled allowed f.chunk.constants⟩

/-- A program matches the trees that it was built from. -/
theorem BuiltFrom.matches {program : Program} {trees : Trees} (h : BuiltFrom program trees) :
    Matches program trees := by
  induction h with
  | empty => exact ⟨rfl, rfl, fun id f t hf => by simp at hf⟩
  | link before made linked ih =>
    obtain ⟨-, -, hbindings, rfl⟩ := link_ok linked
    have hunit := Code.compile_ok made
    have hbase := hunit.bindingBase.symm.trans hbindings
    exact ih.append (hbase ▸ hunit) _

end ScriptHost
