import Mathlib.Data.List.Forall2
import ScriptHost.Proofs.Code.Layout
import ScriptHost.Proofs.Machine.Actions
/-!
# What stands at each place of code

Each instruction is there for some tree, and before it the operand stack holds operands of which
some are known to be `this`. Both are read off the trees: `places` lists, for each instruction of
the code of a tree, the call or the access to a field that it carries out, if it is one, and the
marks of the operands before it, the topmost first. An operand that may come from either side of a
branch has no mark.

The main statements are `Code.BodyLowered.told` and `Code.TopLevelLowered.told`, for what each
instruction is there for, and `Code.BodyLowered.marked` and `Code.TopLevelLowered.marked`: the marks
are right, whichever way the machine gets to a place.
-/

set_option autoImplicit false

namespace ScriptHost

namespace Resolved

/-- What an instruction is there for: a call or an access to a field, or anything else. -/
inductive Origin where
  | plain
  | expr (tree : Expr)
  | stmt (tree : Stmt)

/-- An instruction as the trees tell it. -/
structure Spot where
  origin : Origin
  /-- Which operands are `this`, the topmost first. -/
  marks : List Bool

/-- Whether an expression is `this`. -/
def Expr.isThis : Expr → Bool
  | .loadThis => true
  | _ => false

/-- The marks of arguments on the stack, the last argument first. -/
def Expr.argMarks (args : List Expr) : List Bool :=
  (args.map isThis).reverse

@[simp]
theorem Expr.argMarks_length (args : List Expr) : (argMarks args).length = args.length := by
  simp [argMarks]

theorem Expr.argMarks_cons (e : Expr) (rest : List Expr) (marks : List Bool) :
    argMarks (e :: rest) ++ marks = argMarks rest ++ e.isThis :: marks := by
  simp [argMarks]

mutual

/-- The places of the code of an expression, which starts with operands that have these marks. -/
def Expr.places (marks : List Bool) : Expr → List Spot
  | .const _ | .loadLocal _ | .loadGlobal _ | .loadThis => [⟨.plain, marks⟩]
  | .getField object name =>
    object.places marks ++ [⟨.expr (.getField object name), object.isThis :: marks⟩]
  | .binary .and left right =>
    left.places marks ++ ⟨.plain, left.isThis :: marks⟩ :: right.places marks ++
      [⟨.plain, right.isThis :: marks⟩, ⟨.plain, marks⟩]
  | .binary .or left right =>
    left.places marks ++ ⟨.plain, left.isThis :: marks⟩ :: ⟨.plain, marks⟩ ::
      ⟨.plain, false :: marks⟩ :: right.places marks
  | .binary _ left right =>
    left.places marks ++ right.places (left.isThis :: marks) ++
      [⟨.plain, right.isThis :: left.isThis :: marks⟩]
  | .unary _ operand => operand.places marks ++ [⟨.plain, operand.isThis :: marks⟩]
  | .call function args =>
    Expr.placesAll marks args ++ [⟨.expr (.call function args), argMarks args ++ marks⟩]
  | .callMethod object method args =>
    object.places marks ++ Expr.placesAll (object.isThis :: marks) args ++
      [⟨.expr (.callMethod object method args), argMarks args ++ object.isThis :: marks⟩]
  | .callHost module function args =>
    Expr.placesAll marks args ++ [⟨.expr (.callHost module function args), argMarks args ++ marks⟩]
  | .create _ args => Expr.placesAll marks args ++ [⟨.plain, argMarks args ++ marks⟩]

/-- The places of expressions one after the other, each of which leaves its value. -/
def Expr.placesAll (marks : List Bool) : List Expr → List Spot
  | [] => []
  | e :: rest => e.places marks ++ Expr.placesAll (e.isThis :: marks) rest

end

mutual

/-- The places of the code of a statement. -/
def Stmt.places : Stmt → List Spot
  | .storeLocal _ value | .storeGlobal _ value | .ret (some value) | .expr value =>
    value.places [] ++ [⟨.plain, [value.isThis]⟩]
  | .setField object name value =>
    object.places [] ++ value.places [object.isThis] ++
      [⟨.stmt (.setField object name value), [value.isThis, object.isThis]⟩]
  | .branch condition body [] =>
    condition.places [] ++ ⟨.plain, [condition.isThis]⟩ :: Stmt.placesAll body
  | .branch condition body (first :: rest) =>
    condition.places [] ++ ⟨.plain, [condition.isThis]⟩ :: Stmt.placesAll body ++
      ⟨.plain, []⟩ :: (first.places ++ Stmt.placesAll rest)
  | .loop condition body =>
    condition.places [] ++ ⟨.plain, [condition.isThis]⟩ :: Stmt.placesAll body ++ [⟨.plain, []⟩]
  | .ret none => [⟨.plain, []⟩, ⟨.plain, [false]⟩]

/-- The places of statements one after the other. -/
def Stmt.placesAll : List Stmt → List Spot
  | [] => []
  | s :: rest => s.places ++ Stmt.placesAll rest

end

theorem Stmt.placesAll_append (front rest : List Stmt) :
    Stmt.placesAll (front ++ rest) = Stmt.placesAll front ++ Stmt.placesAll rest := by
  induction front with
  | nil => rfl
  | cons s front ih => rw [List.cons_append, placesAll, placesAll, ih, List.append_assoc]

/-- The places of a function body, with the return at its end. -/
def bodyPlaces (body : List Stmt) : Array Spot :=
  (Stmt.placesAll body ++ [Spot.mk .plain [], Spot.mk .plain [false]]).toArray

/-- The places of a top level. -/
def topLevelPlaces (returnsValue : Bool) (body : List Stmt) : Array Spot :=
  match resultOf returnsValue body with
  | some value =>
    (Stmt.placesAll body.dropLast ++ value.places [] ++
      [Spot.mk .plain [value.isThis], Spot.mk .plain [], Spot.mk .plain [false]]).toArray
  | none => bodyPlaces body

end Resolved

open Resolved (Spot)

/-- Whether an instruction is neither an access to a field nor a call. -/
def Op.isPlain : Op → Bool
  | .getField _ | .setField _ | .call .. | .callMethod .. | .callHost .. => false
  | _ => true

/-- An instruction is what the trees tell. Constants and host calls are numbered as in `pool`, and
bindings from `base` on. -/
inductive Code.Emits (pool : Pool) (base : Nat) : Spot → Op → Prop
  | plain {marks : List Bool} {op : Op} (plain : op.isPlain = true) :
      Emits pool base ⟨.plain, marks⟩ op
  | getField {object : Resolved.Expr} {name : String} {marks : List Bool} {index : Nat}
      (known : pool.constants[index]? = some (.str name)) :
      Emits pool base ⟨.expr (.getField object name), object.isThis :: marks⟩ (.getField index)
  | setField {object value : Resolved.Expr} {name : String} {index : Nat}
      (known : pool.constants[index]? = some (.str name)) :
      Emits pool base ⟨.stmt (.setField object name value), [value.isThis, object.isThis]⟩
        (.setField index)
  | call {function : Nat} {args : List Resolved.Expr} {marks : List Bool} :
      Emits pool base ⟨.expr (.call function args), marks⟩ (.call function args.length)
  | callMethod {object : Resolved.Expr} {method : String} {args : List Resolved.Expr}
      {marks : List Bool} {index : Nat} (known : pool.constants[index]? = some (.str method)) :
      Emits pool base
        ⟨.expr (.callMethod object method args),
          Resolved.Expr.argMarks args ++ object.isThis :: marks⟩
        (.callMethod index args.length)
  | callHost {module function : String} {args : List Resolved.Expr} {marks : List Bool}
      {index : Nat} (known : pool.hostCalls[index]? = some (module, function)) :
      Emits pool base ⟨.expr (.callHost module function args), marks⟩
        (.callHost (base + index) args.length)

namespace Code

variable {pool : Pool} {base : Nat}

mutual

/-- The instructions of an expression are what its places tell. -/
theorem Lowered.emits : ∀ {start : Nat} {e : Resolved.Expr} {code : List Op},
    Lowered pool base start e code → ∀ marks : List Bool,
      List.Forall₂ (Emits pool base) (e.places marks) code
  | _, _, _, .null, _ | _, _, _, .yes, _ | _, _, _, .no, _ | _, _, _, .const _, _
  | _, _, _, .loadLocal, _ | _, _, _, .loadGlobal, _ | _, _, _, .loadThis, _ =>
    .cons (.plain rfl) .nil
  | _, _, _, .getField owner known, marks =>
    List.rel_append (owner.emits marks) (.cons (.getField known) .nil)
  | _, _, _, .and first second, marks => by
    rw [Resolved.Expr.places]
    exact List.rel_append (List.rel_append (first.emits marks)
      (.cons (.plain rfl) (second.emits marks))) (.cons (.plain rfl) (.cons (.plain rfl) .nil))
  | _, _, _, .or first second, marks => by
    rw [Resolved.Expr.places]
    exact List.rel_append (first.emits marks) (.cons (.plain rfl) (.cons (.plain rfl)
      (.cons (.plain rfl) (second.emits marks))))
  | _, _, _, @Lowered.binary _ _ _ op _ _ _ _ hand hor first second, marks => by
    rw [Resolved.Expr.places]
    · refine List.rel_append (List.rel_append (first.emits marks) (second.emits _))
        (.cons (.plain ?_) .nil)
      cases op <;> rfl
    · exact hand
    · exact hor
  | _, _, _, @Lowered.unary _ _ _ op _ _ first, marks => by
    refine List.rel_append (first.emits marks) (.cons (.plain ?_) .nil)
    cases op <;> rfl
  | _, _, _, .call all, marks => List.rel_append (all.emits marks) (.cons .call .nil)
  | _, _, _, .callMethod receiver all known, marks =>
    List.rel_append (List.rel_append (receiver.emits marks) (all.emits _))
      (.cons (.callMethod known) .nil)
  | _, _, _, .callHost all known, marks =>
    List.rel_append (all.emits marks) (.cons (.callHost known) .nil)
  | _, _, _, .create all, marks => List.rel_append (all.emits marks) (.cons (.plain rfl) .nil)

/-- The same for several expressions. -/
theorem LoweredAll.emits : ∀ {start : Nat} {args : List Resolved.Expr} {code : List Op},
    LoweredAll pool base start args code → ∀ marks : List Bool,
      List.Forall₂ (Emits pool base) (Resolved.Expr.placesAll marks args) code
  | _, _, _, .nil, _ => .nil
  | _, _, _, .cons first others, marks =>
    List.rel_append (first.emits marks) (others.emits _)

end

mutual

/-- The instructions of a statement are what its places tell. -/
theorem StmtLowered.emits : ∀ {start : Nat} {s : Resolved.Stmt} {code : List Op},
    StmtLowered pool base start s code → List.Forall₂ (Emits pool base) s.places code
  | _, _, _, .storeLocal first | _, _, _, .storeGlobal first | _, _, _, .ret first
  | _, _, _, .expr first => List.rel_append (first.emits []) (.cons (.plain rfl) .nil)
  | _, _, _, .setField owner first known =>
    List.rel_append (List.rel_append (owner.emits []) (first.emits _))
      (.cons (.setField known) .nil)
  | _, _, _, .ifThen test first =>
    List.rel_append (test.emits []) (.cons (.plain rfl) first.emits)
  | _, _, _, @StmtLowered.ifElse _ _ _ _ _ alternative _ _ _ notNil test first second => by
    cases alternative with
    | nil => exact absurd rfl notNil
    | cons s rest =>
      exact List.rel_append (List.rel_append (test.emits []) (.cons (.plain rfl) first.emits))
        (.cons (.plain rfl) second.emits)
  | _, _, _, .loop test first =>
    List.rel_append (List.rel_append (test.emits []) (.cons (.plain rfl) first.emits))
      (.cons (.plain rfl) .nil)
  | _, _, _, .retNull => .cons (.plain rfl) (.cons (.plain rfl) .nil)

/-- The same for several statements. -/
theorem StmtsLowered.emits : ∀ {start : Nat} {body : List Resolved.Stmt} {code : List Op},
    StmtsLowered pool base start body code →
      List.Forall₂ (Emits pool base) (Resolved.Stmt.placesAll body) code
  | _, _, _, .nil => .nil
  | _, _, _, .cons first others => List.rel_append first.emits others.emits

end

end Code

/-! ## How operands move -/

/-- As many marks, none of which is new. -/
def Weaker (few many : List Bool) : Prop :=
  List.Forall₂ (fun mark other => mark = true → other = true) few many

theorem Weaker.refl (marks : List Bool) : Weaker marks marks :=
  List.forall₂_same.mpr fun _ _ => id

theorem Weaker.cons_false {few many : List Bool} (h : Weaker few (false :: many)) (mark : Bool) :
    Weaker few (mark :: many) := by
  cases h with
  | cons hfirst hrest => exact .cons (fun htrue => absurd (hfirst htrue) (by simp)) hrest

/-- There is a place whose marks claim no more than these. -/
def ComesTo (places : Array Spot) (place : Nat) (marks : List Bool) : Prop :=
  ∃ p, places[place]? = some p ∧ Weaker p.marks marks

theorem ComesTo.of_eq {places : Array Spot} {place : Nat} {p : Spot} {marks : List Bool}
    (h : places[place]? = some p) (hmarks : p.marks = marks) : ComesTo places place marks :=
  ⟨p, h, hmarks ▸ .refl _⟩

theorem ComesTo.cons_false {places : Array Spot} {place : Nat} {marks : List Bool}
    (h : ComesTo places place (false :: marks)) (mark : Bool) :
    ComesTo places place (mark :: marks) := by
  obtain ⟨p, hp, hweaker⟩ := h
  exact ⟨p, hp, hweaker.cons_false mark⟩

/-- The marks of the values that an instruction leaves on the stack, a call when it has returned. -/
def Op.leaves : Op → List Bool
  | .loadThis => [true]
  | op => List.replicate op.puts false

theorem Op.leaves_length (op : Op) : op.leaves.length = op.puts := by
  cases op <;> rfl

/-- The places fit an instruction: there are enough operands for it, and wherever it leads, no
operand is marked but those that stay and `this`. -/
def PlaceFits (places : Array Spot) (place : Nat) (op : Op) : Prop :=
  ∃ p, places[place]? = some p ∧ op.needs ≤ p.marks.length ∧
    ∀ next ∈ op.successors (place + 1),
      ComesTo places next (op.leaves ++ p.marks.drop op.needs)

/-- An instruction that leads to the place behind it only. -/
theorem PlaceFits.next {places : Array Spot} {place : Nat} {op : Op} {p : Spot}
    {after : List Bool} (hsuccessors : op.successors (place + 1) = [place + 1])
    (hat : places[place]? = some p) (henough : op.needs ≤ p.marks.length)
    (hnext : ComesTo places (place + 1) after)
    (hafter : after = op.leaves ++ p.marks.drop op.needs) : PlaceFits places place op := by
  refine ⟨p, hat, henough, fun next hmem => ?_⟩
  rw [hsuccessors, List.mem_singleton] at hmem
  rw [hmem, ← hafter]
  exact hnext

/-- A jump leaves the operands as they are. -/
theorem PlaceFits.jump {places : Array Spot} {place target : Nat} {p : Spot}
    (hat : places[place]? = some p) (hto : ComesTo places target p.marks) :
    PlaceFits places place (.jump target) := by
  refine ⟨p, hat, Nat.zero_le _, fun next hnext => ?_⟩
  obtain rfl : next = target := by simpa [Op.successors] using hnext
  exact hto

/-- A test takes one operand, whether it jumps or not. -/
theorem PlaceFits.jumpIfFalse {places : Array Spot} {place target : Nat}
    {origin : Resolved.Origin} {mark : Bool} {marks : List Bool}
    (hat : places[place]? = some ⟨origin, mark :: marks⟩)
    (hnext : ComesTo places (place + 1) marks) (hto : ComesTo places target marks) :
    PlaceFits places place (.jumpIfFalse target) := by
  refine ⟨_, hat, Nat.le_add_left 1 _, fun next hsuccessor => ?_⟩
  obtain rfl | rfl : next = place + 1 ∨ next = target := by
    simpa [Op.successors] using hsuccessor
  · exact hnext
  · exact hto

/-- A return goes nowhere. -/
theorem PlaceFits.ret {places : Array Spot} {place : Nat} {p : Spot}
    (hat : places[place]? = some p) (henough : 1 ≤ p.marks.length) : PlaceFits places place .ret :=
  ⟨p, hat, henough, by simp [Op.successors]⟩

/-- The places fit code that starts at a place. -/
def PlacesFit (places : Array Spot) : Nat → List Op → Prop
  | _, [] => True
  | start, op :: rest => PlaceFits places start op ∧ PlacesFit places (start + 1) rest

theorem placesFit_append {places : Array Spot} {start : Nat} {front rest : List Op} :
    PlacesFit places start (front ++ rest) ↔
      PlacesFit places start front ∧ PlacesFit places (start + front.length) rest := by
  induction front generalizing start with
  | nil => simp [PlacesFit]
  | cons op front ih =>
    simp only [List.cons_append, PlacesFit, ih, List.length_cons, and_assoc]
    rw [Nat.add_right_comm start 1, Nat.add_assoc start]

/-- One instruction behind code whose value it takes. -/
theorem PlacesFit.concat {places : Array Spot} {start : Nat} {code : List Op} {op : Op}
    {p : Spot} {after : List Bool} (h : PlacesFit places start code)
    (hsuccessors : ∀ next, op.successors next = [next])
    (hat : places[start + code.length]? = some p) (henough : op.needs ≤ p.marks.length)
    (hend : ComesTo places (start + (code ++ [op]).length) after)
    (hafter : after = op.leaves ++ p.marks.drop op.needs) :
    PlacesFit places start (code ++ [op]) := by
  rw [List.length_append, ← Nat.add_assoc] at hend
  exact placesFit_append.mpr ⟨h, .next (hsuccessors _) hat henough hend hafter, trivial⟩

namespace Code

mutual

/-- The code of an expression starts with the marks that it is given. -/
theorem places_entry {places : Array Spot} {start : Nat} {marks : List Bool} :
    ∀ (e : Resolved.Expr), PartAt places start (e.places marks) → ComesTo places start marks
  | .const _, hat | .loadLocal _, hat | .loadGlobal _, hat | .loadThis, hat => .of_eq hat.1 rfl
  | .getField object _, hat => places_entry object (partAt_append.mp hat).1
  | .binary op left right, hat => by
    by_cases hand : op = .and
    · subst hand
      rw [Resolved.Expr.places, List.append_assoc] at hat
      exact places_entry left (partAt_append.mp hat).1
    · by_cases hor : op = .or
      · subst hor
        rw [Resolved.Expr.places] at hat
        exact places_entry left (partAt_append.mp hat).1
      · rw [Resolved.Expr.places, List.append_assoc] at hat
        · exact places_entry left (partAt_append.mp hat).1
        · exact hand
        · exact hor
  | .unary _ operand, hat => places_entry operand (partAt_append.mp hat).1
  | .call _ args, hat => by
    rw [Resolved.Expr.places, partAt_append] at hat
    exact placesAll_entry args hat.1 (.of_eq hat.2.1 rfl)
  | .callHost _ _ args, hat => by
    rw [Resolved.Expr.places, partAt_append] at hat
    exact placesAll_entry args hat.1 (.of_eq hat.2.1 rfl)
  | .create _ args, hat => by
    rw [Resolved.Expr.places, partAt_append] at hat
    exact placesAll_entry args hat.1 (.of_eq hat.2.1 rfl)
  | .callMethod object _ args, hat => by
    rw [Resolved.Expr.places, List.append_assoc] at hat
    exact places_entry object (partAt_append.mp hat).1

/-- The code of several expressions starts with the marks that it is given, also if there are
none. -/
theorem placesAll_entry {places : Array Spot} {start : Nat} {marks : List Bool} :
    ∀ (args : List Resolved.Expr), PartAt places start (Resolved.Expr.placesAll marks args) →
      ComesTo places (start + (Resolved.Expr.placesAll marks args).length)
        (Resolved.Expr.argMarks args ++ marks) → ComesTo places start marks
  | [], _, hend => hend
  | e :: rest, hat, _ => by
    rw [Resolved.Expr.placesAll] at hat
    exact places_entry e (partAt_append.mp hat).1

end

variable {pool : Pool} {base : Nat}

theorem Lowered.places_length {start : Nat} {e : Resolved.Expr} {code : List Op}
    (h : Lowered pool base start e code) (marks : List Bool) :
    (e.places marks).length = code.length :=
  (h.emits marks).length_eq

theorem LoweredAll.places_length {start : Nat} {args : List Resolved.Expr} {code : List Op}
    (h : LoweredAll pool base start args code) (marks : List Bool) :
    (Resolved.Expr.placesAll marks args).length = code.length :=
  (h.emits marks).length_eq

mutual

/-- The places of an expression fit its code. -/
theorem Lowered.places_fit {places : Array Spot} : ∀ {start : Nat} {e : Resolved.Expr}
    {code : List Op}, Lowered pool base start e code → ∀ (marks : List Bool),
      PartAt places start (e.places marks) →
        ComesTo places (start + code.length) (e.isThis :: marks) → PlacesFit places start code
  | _, _, _, .null, marks, hat, hend | _, _, _, .yes, marks, hat, hend
  | _, _, _, .no, marks, hat, hend | _, _, _, .const _, marks, hat, hend
  | _, _, _, .loadLocal, marks, hat, hend | _, _, _, .loadGlobal, marks, hat, hend
  | _, _, _, .loadThis, marks, hat, hend =>
    ⟨.next rfl hat.1 (Nat.zero_le _) hend rfl, trivial⟩
  | start, _, _, .getField owner _, marks, hat, hend => by
    simp only [Resolved.Expr.places, partAt_append, PartAt, owner.places_length marks] at hat
    obtain ⟨howner, hop, -⟩ := hat
    exact (owner.places_fit marks howner (.of_eq hop rfl)).concat (fun _ => rfl) hop
      (Nat.le_add_left 1 _) hend rfl
  | start, _, _, @Lowered.and _ _ _ left right l r first second, marks, hat, hend => by
    simp only [Resolved.Expr.places, List.append_assoc, List.cons_append, partAt_append, PartAt,
      first.places_length marks, second.places_length marks] at hat
    obtain ⟨hl, htest, hr, hskip, hfalse, -⟩ := hat
    have hstop : start + l.length + 1 + r.length + 1 + 1 = start + (l ++
        Op.jumpIfFalse (start + l.length + 1 + r.length + 1) ::
          r ++ [Op.jump (start + l.length + 1 + r.length + 1 + 1), Op.pushFalse]).length := by
      simp only [List.length_append, List.length_cons, List.length_nil]
      omega
    rw [← hstop] at hend
    simp only [List.append_assoc, List.cons_append, placesFit_append, PlacesFit]
    exact ⟨first.places_fit marks hl (.of_eq htest rfl),
      .jumpIfFalse htest (places_entry right hr) (.of_eq hfalse rfl),
      second.places_fit marks hr (.of_eq hskip rfl), .jump hskip (hend.cons_false _),
      .next rfl hfalse (Nat.zero_le _) hend rfl, trivial⟩
  | start, _, _, @Lowered.or _ _ _ left right l r first second, marks, hat, hend => by
    simp only [Resolved.Expr.places, partAt_append, PartAt, first.places_length marks] at hat
    obtain ⟨hl, htest, htrue, hskip, hr⟩ := hat
    have hstop : start + l.length + 3 + r.length = start + (l ++
        Op.jumpIfFalse (start + l.length + 3) :: Op.pushTrue ::
          Op.jump (start + l.length + 3 + r.length) :: r).length := by
      simp only [List.length_append, List.length_cons]
      omega
    rw [← hstop] at hend
    simp only [placesFit_append, PlacesFit]
    exact ⟨first.places_fit marks hl (.of_eq htest rfl),
      .jumpIfFalse htest (.of_eq htrue rfl) (places_entry right hr),
      .next rfl htrue (Nat.zero_le _) (.of_eq hskip rfl) rfl, .jump hskip hend,
      second.places_fit marks hr (hend.cons_false _)⟩
  | start, _, _, @Lowered.binary _ _ _ op left right l r hand hor first second, marks, hat,
      hend => by
    have hplaces : Resolved.Expr.places marks (.binary op left right) = left.places marks ++
        right.places (left.isThis :: marks) ++
          [⟨.plain, right.isThis :: left.isThis :: marks⟩] := by
      rw [Resolved.Expr.places]
      · exact hand
      · exact hor
    simp only [hplaces, partAt_append, PartAt, first.places_length marks,
      second.places_length (left.isThis :: marks), List.length_append, ← Nat.add_assoc] at hat
    obtain ⟨⟨hl, hr⟩, hop, -⟩ := hat
    have hboth : PlacesFit places start (l ++ r) := placesFit_append.mpr
      ⟨first.places_fit marks hl (places_entry right hr),
        second.places_fit _ hr (.of_eq hop rfl)⟩
    refine hboth.concat (fun _ => ?_) (by rwa [List.length_append, ← Nat.add_assoc]) ?_ hend ?_
    · cases op <;> rfl
    · cases op <;> exact Nat.le_add_left 2 _
    · cases op <;> rfl
  | _, _, _, @Lowered.unary _ _ _ op _ _ first, marks, hat, hend => by
    simp only [Resolved.Expr.places, partAt_append, PartAt, first.places_length marks] at hat
    obtain ⟨hfirst, hop, -⟩ := hat
    refine (first.places_fit marks hfirst (.of_eq hop rfl)).concat (fun _ => ?_) hop ?_ hend ?_
    · cases op <;> rfl
    · cases op <;> exact Nat.le_add_left 1 _
    · cases op <;> rfl
  | _, _, _, .call all, marks, hat, hend => by
    simp only [Resolved.Expr.places, partAt_append, PartAt, all.places_length marks] at hat
    obtain ⟨hall, hop, -⟩ := hat
    exact (all.places_fit marks hall (.of_eq hop rfl)).concat (fun _ => rfl) hop
      (by simp [Op.needs]) hend
      (by simp [Op.leaves, Op.puts, Op.needs, Resolved.Expr.isThis])
  | start, _, _, @Lowered.callMethod _ _ _ _ object _ args o code receiver all _, marks, hat,
      hend => by
    simp only [Resolved.Expr.places, partAt_append, PartAt, receiver.places_length marks,
      all.places_length (object.isThis :: marks), List.length_append, ← Nat.add_assoc] at hat
    obtain ⟨⟨hreceiver, hall⟩, hop, -⟩ := hat
    have hentry := placesAll_entry args hall
      (.of_eq (by rwa [all.places_length (object.isThis :: marks)]) rfl)
    have hboth : PlacesFit places start (o ++ code) := placesFit_append.mpr
      ⟨receiver.places_fit marks hreceiver hentry, all.places_fit _ hall (.of_eq hop rfl)⟩
    refine hboth.concat (fun _ => rfl) (by rwa [List.length_append, ← Nat.add_assoc]) ?_ hend ?_
    · simp [Op.needs]
    · simp [Op.leaves, Op.puts, Op.needs, Resolved.Expr.isThis,
        List.drop_append]
  | _, _, _, .callHost all _, marks, hat, hend => by
    simp only [Resolved.Expr.places, partAt_append, PartAt, all.places_length marks] at hat
    obtain ⟨hall, hop, -⟩ := hat
    exact (all.places_fit marks hall (.of_eq hop rfl)).concat (fun _ => rfl) hop
      (by simp [Op.needs]) hend
      (by simp [Op.leaves, Op.puts, Op.needs, Resolved.Expr.isThis])
  | _, _, _, .create all, marks, hat, hend => by
    simp only [Resolved.Expr.places, partAt_append, PartAt, all.places_length marks] at hat
    obtain ⟨hall, hop, -⟩ := hat
    exact (all.places_fit marks hall (.of_eq hop rfl)).concat (fun _ => rfl) hop
      (by simp [Op.needs]) hend
      (by simp [Op.leaves, Op.puts, Op.needs, Resolved.Expr.isThis])

/-- The places of several expressions fit their code. -/
theorem LoweredAll.places_fit {places : Array Spot} : ∀ {start : Nat}
    {args : List Resolved.Expr} {code : List Op}, LoweredAll pool base start args code →
      ∀ (marks : List Bool), PartAt places start (Resolved.Expr.placesAll marks args) →
        ComesTo places (start + code.length) (Resolved.Expr.argMarks args ++ marks) →
          PlacesFit places start code
  | _, _, _, .nil, _, _, _ => trivial
  | start, _, _, @LoweredAll.cons _ _ _ e rest code more first others, marks, hat, hend => by
    simp only [Resolved.Expr.placesAll, partAt_append, first.places_length marks] at hat
    rw [List.length_append, ← Nat.add_assoc, Resolved.Expr.argMarks_cons] at hend
    have hentry := placesAll_entry rest hat.2 (by rwa [others.places_length (e.isThis :: marks)])
    exact placesFit_append.mpr
      ⟨first.places_fit marks hat.1 hentry, others.places_fit _ hat.2 hend⟩

end

/-! ## Statements -/

theorem StmtLowered.places_length {start : Nat} {s : Resolved.Stmt} {code : List Op}
    (h : StmtLowered pool base start s code) : s.places.length = code.length :=
  h.emits.length_eq

theorem StmtsLowered.places_length {start : Nat} {body : List Resolved.Stmt} {code : List Op}
    (h : StmtsLowered pool base start body code) :
    (Resolved.Stmt.placesAll body).length = code.length :=
  h.emits.length_eq

/-- The code of a statement starts with an empty stack. -/
theorem stmt_places_entry {places : Array Spot} {start : Nat} (s : Resolved.Stmt)
    (hat : PartAt places start s.places) : ComesTo places start [] := by
  unfold Resolved.Stmt.places at hat
  split at hat
  · exact places_entry _ (partAt_append.mp hat).1
  · exact places_entry _ (partAt_append.mp hat).1
  · exact places_entry _ (partAt_append.mp hat).1
  · exact places_entry _ (partAt_append.mp hat).1
  · rw [List.append_assoc] at hat
    exact places_entry _ (partAt_append.mp hat).1
  · exact places_entry _ (partAt_append.mp hat).1
  · rw [List.append_assoc] at hat
    exact places_entry _ (partAt_append.mp hat).1
  · rw [List.append_assoc] at hat
    exact places_entry _ (partAt_append.mp hat).1
  · exact .of_eq hat.1 rfl

/-- The code of several statements starts with an empty stack, also if there are none. -/
theorem stmts_places_entry {places : Array Spot} {start : Nat} (body : List Resolved.Stmt)
    (hat : PartAt places start (Resolved.Stmt.placesAll body))
    (hend : ComesTo places (start + (Resolved.Stmt.placesAll body).length) []) :
    ComesTo places start [] := by
  cases body with
  | nil => exact hend
  | cons s rest =>
    rw [Resolved.Stmt.placesAll] at hat
    exact stmt_places_entry s (partAt_append.mp hat).1

mutual

/-- The places of a statement fit its code. -/
theorem StmtLowered.places_fit {places : Array Spot} : ∀ {start : Nat} {s : Resolved.Stmt}
    {code : List Op}, StmtLowered pool base start s code → PartAt places start s.places →
      ComesTo places (start + code.length) [] → PlacesFit places start code
  | _, _, _, .storeLocal first, hat, hend | _, _, _, .storeGlobal first, hat, hend
  | _, _, _, .expr first, hat, hend => by
    simp only [Resolved.Stmt.places, partAt_append, PartAt, first.places_length []] at hat
    obtain ⟨hfirst, hop, -⟩ := hat
    exact (first.places_fit [] hfirst (.of_eq hop rfl)).concat (fun _ => rfl) hop (Nat.le_refl 1)
      hend rfl
  | start, _, _, @StmtLowered.setField _ _ _ _ object _ _ o code owner first _, hat, hend => by
    simp only [Resolved.Stmt.places, partAt_append, PartAt, owner.places_length [],
      first.places_length [object.isThis], List.length_append, ← Nat.add_assoc] at hat
    obtain ⟨⟨howner, hvalue⟩, hop, -⟩ := hat
    have hboth : PlacesFit places start (o ++ code) := placesFit_append.mpr
      ⟨owner.places_fit [] howner (places_entry _ hvalue),
        first.places_fit _ hvalue (.of_eq hop rfl)⟩
    rw [Nat.add_assoc, ← List.length_append] at hop
    exact hboth.concat (fun _ => rfl) hop (Nat.le_refl 2) hend rfl
  | start, _, _, @StmtLowered.ifThen _ _ _ _ body c b test first, hat, hend => by
    simp only [Resolved.Stmt.places, partAt_append, PartAt, test.places_length []] at hat
    obtain ⟨hcondition, htest, hbody⟩ := hat
    have hstop : start + c.length + 1 + b.length = start +
        (c ++ Op.jumpIfFalse (start + c.length + 1 + b.length) :: b).length := by
      simp only [List.length_append, List.length_cons]
      omega
    rw [← hstop] at hend
    have hentry := stmts_places_entry body hbody (by rwa [first.places_length])
    simp only [placesFit_append, PlacesFit]
    exact ⟨test.places_fit [] hcondition (.of_eq htest rfl), .jumpIfFalse htest hentry hend,
      first.places_fit hbody hend⟩
  | start, _, _, @StmtLowered.ifElse _ _ _ _ body alternative c b a notNil test first second,
      hat, hend => by
    have hplaces : ∀ condition, Resolved.Stmt.places (.branch condition body alternative) =
        condition.places [] ++ ⟨.plain, [condition.isThis]⟩ :: Resolved.Stmt.placesAll body ++
          ⟨.plain, []⟩ :: Resolved.Stmt.placesAll alternative := by
      intro condition
      cases alternative with
      | nil => exact absurd rfl notNil
      | cons s rest => rfl
    simp only [hplaces, List.append_assoc, List.cons_append, partAt_append, PartAt,
      test.places_length [], first.places_length] at hat
    obtain ⟨hcondition, htest, hbody, hskip, halternative⟩ := hat
    have hstop : start + c.length + 1 + b.length + 1 + a.length = start +
        (c ++ Op.jumpIfFalse (start + c.length + 1 + b.length + 1) :: b ++
          Op.jump (start + c.length + 1 + b.length + 1 + a.length) :: a).length := by
      simp only [List.length_append, List.length_cons]
      omega
    rw [← hstop] at hend
    have hover : ComesTo places (start + c.length + 1 + b.length) [] := .of_eq hskip rfl
    have hentry := stmts_places_entry body hbody (by rwa [first.places_length])
    have hotherwise := stmts_places_entry alternative halternative (by rwa [second.places_length])
    simp only [List.append_assoc, List.cons_append, placesFit_append, PlacesFit]
    exact ⟨test.places_fit [] hcondition (.of_eq htest rfl), .jumpIfFalse htest hentry hotherwise,
      first.places_fit hbody hover, .jump hskip hend, second.places_fit halternative hend⟩
  | start, _, _, @StmtLowered.loop _ _ _ condition body c b test first, hat, hend => by
    simp only [Resolved.Stmt.places, List.append_assoc, List.cons_append, partAt_append, PartAt,
      test.places_length [], first.places_length] at hat
    obtain ⟨hcondition, htest, hbody, hagain, -⟩ := hat
    have hstop : start + c.length + 1 + b.length + 1 = start +
        (c ++ Op.jumpIfFalse (start + c.length + 1 + b.length + 1) :: b ++
          [Op.jump start]).length := by
      simp only [List.length_append, List.length_cons, List.length_nil]
      omega
    rw [← hstop] at hend
    have hback : ComesTo places (start + c.length + 1 + b.length) [] := .of_eq hagain rfl
    have hentry := stmts_places_entry body hbody (by rwa [first.places_length])
    simp only [List.append_assoc, List.cons_append, placesFit_append, PlacesFit]
    exact ⟨test.places_fit [] hcondition (.of_eq htest rfl), .jumpIfFalse htest hentry hend,
      first.places_fit hbody hback, .jump hagain (places_entry condition hcondition), trivial⟩
  | _, _, _, .retNull, hat, _ =>
    ⟨.next rfl hat.1 (Nat.le_refl 0) (.of_eq hat.2.1 rfl) rfl,
      .ret hat.2.1 (Nat.le_refl 1), trivial⟩
  | _, _, _, .ret first, hat, _ => by
    simp only [Resolved.Stmt.places, partAt_append, PartAt, first.places_length []] at hat
    obtain ⟨hfirst, hop, -⟩ := hat
    exact placesFit_append.mpr ⟨first.places_fit [] hfirst (.of_eq hop rfl),
      .ret hop (Nat.le_refl 1), trivial⟩

/-- The places of several statements fit their code. -/
theorem StmtsLowered.places_fit {places : Array Spot} : ∀ {start : Nat}
    {body : List Resolved.Stmt} {code : List Op}, StmtsLowered pool base start body code →
      PartAt places start (Resolved.Stmt.placesAll body) →
        ComesTo places (start + code.length) [] → PlacesFit places start code
  | _, _, _, .nil, _, _ => trivial
  | start, _, _, @StmtsLowered.cons _ _ _ s rest code more first others, hat, hend => by
    simp only [Resolved.Stmt.placesAll, partAt_append, first.places_length] at hat
    rw [List.length_append, ← Nat.add_assoc] at hend
    have hentry := stmts_places_entry rest hat.2 (by rwa [others.places_length])
    exact placesFit_append.mpr
      ⟨first.places_fit hat.1 hentry, others.places_fit hat.2 hend⟩

end

end Code

/-! ## Chunks -/

/-- What fits code fits each of its instructions. -/
theorem PlacesFit.op {places : Array Spot} {start : Nat} {code : List Op}
    (h : PlacesFit places start code) {index : Nat} {op : Op} (hop : code[index]? = some op) :
    PlaceFits places (start + index) op := by
  induction code generalizing start index with
  | nil => simp at hop
  | cons first rest ih =>
    cases index with
    | zero =>
      rw [List.getElem?_cons_zero, Option.some.injEq] at hop
      exact hop ▸ h.1
    | succ index =>
      rw [List.getElem?_cons_succ] at hop
      have hop' := ih h.2 hop
      rwa [Nat.add_assoc, Nat.add_comm 1] at hop'

/-- Places for all instructions of a chunk, whose code starts with an empty stack. -/
structure Marked (places : Array Spot) (ops : Array Op) : Prop where
  size : places.size = ops.size
  entry : ComesTo places 0 []
  fits : ∀ (place : Nat) (op : Op), ops[place]? = some op → PlaceFits places place op

/-- The places of a chunk tell what each of its instructions is there for. -/
def Told (pool : Code.Pool) (base : Nat) (places : Array Spot) (ops : Array Op) : Prop :=
  ∀ (place : Nat) (op : Op), ops[place]? = some op →
    ∃ p, places[place]? = some p ∧ Code.Emits pool base p op

namespace Code

variable {pool : Pool} {base : Nat}

/-- What instructions in a row are there for, as an array. -/
theorem told_of_forall₂ {list : List Spot} {ops : Array Op}
    (h : List.Forall₂ (Emits pool base) list ops.toList) : Told pool base list.toArray ops := by
  intro place op hop
  have hinside := (Array.getElem?_eq_some_iff.mp hop).1
  have hlist : place < list.length := by rwa [h.length_eq, Array.length_toList]
  rw [← Array.getElem?_toList] at hop
  have hemits := List.forall₂_iff_get.mp h |>.2 place hlist (by simpa using hinside)
  obtain ⟨hinside', hget⟩ := List.getElem?_eq_some_iff.mp hop
  refine ⟨list[place], by simp [hlist], ?_⟩
  simpa [hget] using hemits

/-- A body ends with a return of null. -/
theorem emits_end : List.Forall₂ (Emits pool base)
    [Spot.mk .plain [], Spot.mk .plain [false]] [.pushNull, .ret] :=
  .cons (.plain rfl) (.cons (.plain rfl) .nil)

theorem BodyLowered.told {body : List Resolved.Stmt} {ops : Array Op}
    (h : BodyLowered pool base body ops.toList) :
    Told pool base (Resolved.bodyPlaces body) ops := by
  obtain ⟨inner, lowered, hops⟩ := h
  refine told_of_forall₂ ?_
  rw [hops]
  exact List.rel_append lowered.emits emits_end

theorem TopLevelLowered.told {returnsValue : Bool} {body : List Resolved.Stmt} {ops : Array Op}
    (h : TopLevelLowered pool base returnsValue body ops.toList) :
    Told pool base (Resolved.topLevelPlaces returnsValue body) ops := by
  unfold TopLevelLowered at h
  unfold Resolved.topLevelPlaces
  cases hresult : Resolved.resultOf returnsValue body with
  | none =>
    simp only [hresult] at h ⊢
    exact h.told
  | some value =>
    simp only [hresult] at h ⊢
    obtain ⟨inner, last, lowered, hvalue, hops⟩ := h
    refine told_of_forall₂ ?_
    rw [hops]
    exact List.rel_append (List.rel_append lowered.emits (hvalue.emits []))
      (.cons (.plain rfl) emits_end)

/-- The places of a function body fit its code. -/
theorem BodyLowered.marked {body : List Resolved.Stmt} {ops : Array Op}
    (h : BodyLowered pool base body ops.toList) : Marked (Resolved.bodyPlaces body) ops := by
  obtain ⟨inner, lowered, hops⟩ := h
  have hlength := lowered.places_length
  have hat := partAt_toList (Resolved.bodyPlaces body)
  simp only [Resolved.bodyPlaces, partAt_append, PartAt, hlength, Nat.zero_add] at hat
  obtain ⟨hbody, hnull, hret, -⟩ := hat
  have hend : ComesTo (Resolved.bodyPlaces body) inner.length [] := .of_eq hnull rfl
  have hfits : PlacesFit (Resolved.bodyPlaces body) 0 ops.toList := by
    rw [hops, placesFit_append, Nat.zero_add]
    exact ⟨lowered.places_fit hbody (by rwa [Nat.zero_add]),
      .next rfl hnull (Nat.le_refl 0) (.of_eq hret rfl) rfl,
      .ret hret (Nat.le_refl 1), trivial⟩
  refine ⟨?_, stmts_places_entry body hbody (by rwa [Nat.zero_add, hlength]),
    fun place op hop => ?_⟩
  · rw [← Array.length_toList, ← Array.length_toList, hops]
    simp [Resolved.bodyPlaces, hlength]
  · rw [← Array.getElem?_toList] at hop
    simpa using hfits.op hop

/-- The places of a top level fit its code. -/
theorem TopLevelLowered.marked {returnsValue : Bool} {body : List Resolved.Stmt} {ops : Array Op}
    (h : TopLevelLowered pool base returnsValue body ops.toList) :
    Marked (Resolved.topLevelPlaces returnsValue body) ops := by
  unfold TopLevelLowered at h
  unfold Resolved.topLevelPlaces
  cases hresult : Resolved.resultOf returnsValue body with
  | none =>
    simp only [hresult] at h ⊢
    exact h.marked
  | some value =>
    simp only [hresult] at h ⊢
    obtain ⟨inner, last, lowered, hvalue, hops⟩ := h
    have hlength := lowered.places_length
    have hlast := hvalue.places_length []
    generalize hplaces : (Resolved.Stmt.placesAll body.dropLast ++ value.places [] ++
      [Spot.mk .plain [value.isThis], Spot.mk .plain [], Spot.mk .plain [false]]).toArray =
        places
    have hat := partAt_toList places
    simp only [← hplaces, partAt_append, PartAt, List.length_append, hlength, hlast,
      Nat.zero_add] at hat
    rw [hplaces] at hat
    obtain ⟨⟨hbody, hexpr⟩, hfirst, hnull, hret, -⟩ := hat
    have hentry := places_entry value hexpr
    have hfits : PlacesFit places 0 ops.toList := by
      rw [hops]
      simp only [placesFit_append, PlacesFit, Nat.zero_add, List.length_append]
      exact ⟨⟨lowered.places_fit hbody (by rwa [Nat.zero_add]),
          hvalue.places_fit [] hexpr (.of_eq hfirst rfl)⟩,
        .ret hfirst (Nat.le_refl 1),
        .next rfl hnull (Nat.le_refl 0) (.of_eq hret rfl) rfl,
        .ret hret (Nat.le_refl 1), trivial⟩
    refine ⟨?_, stmts_places_entry _ hbody (by rwa [Nat.zero_add, hlength]),
      fun place op hop => ?_⟩
    · rw [← Array.length_toList, ← Array.length_toList, hops, ← hplaces]
      simp [hlength, hlast]
    · rw [← Array.getElem?_toList] at hop
      simpa using hfits.op hop

end Code

end ScriptHost
