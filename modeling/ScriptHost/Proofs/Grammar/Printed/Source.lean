import ScriptHost.Program.Build
import ScriptHost.Proofs.Grammar.Printed.Items
import ScriptHost.Proofs.Token.Spelling
/-!
# Source texts are read back as they were written

The text of a syntax tree is read back as the same tree up to places, unless the nesting is too deep.
Then the first error says so: `read_printed`. It need not be the only one, for behind an error in the
middle of nested blocks reading stumbles over the braces that are left: `nested_blocks_leave_braces`.
-/

set_option autoImplicit false

namespace ScriptHost

/-! ## The tokens of a tree can be written -/

section Tokens

variable {float : Float → List Char}

/-- Each of some tokens can be written. -/
def AllTokensPrintable (float : Float → List Char) (tokens : List Token) : Prop :=
  ∀ token ∈ tokens, token.Printable float

namespace AllTokensPrintable

variable {token : Token} {tokens others : List Token}

theorem nil : AllTokensPrintable float [] :=
  nofun

theorem cons (htoken : token.Printable float) (h : AllTokensPrintable float tokens) :
    AllTokensPrintable float (token :: tokens) :=
  List.forall_mem_cons.mpr ⟨htoken, h⟩

theorem append (h : AllTokensPrintable float tokens) (h' : AllTokensPrintable float others) :
    AllTokensPrintable float (tokens ++ others) :=
  List.forall_mem_append.mpr ⟨h, h'⟩

theorem parenthesized (h : AllTokensPrintable float tokens) :
    AllTokensPrintable float (ScriptHost.parenthesized tokens) :=
  .cons trivial (h.append (.cons trivial .nil))

theorem inBraces (h : AllTokensPrintable float tokens) :
    AllTokensPrintable float (ScriptHost.inBraces tokens) :=
  .cons trivial (h.append (.cons trivial .nil))

theorem flatMap {α : Type} {f : α → List Token} {items : List α}
    (h : ∀ a ∈ items, AllTokensPrintable float (f a)) :
    AllTokensPrintable float (items.flatMap f) := by
  intro token htoken
  obtain ⟨a, ha, hmem⟩ := List.mem_flatMap.mp htoken
  exact h a ha token hmem

theorem separated {mark : Token} (hmark : mark.Printable float) {lists : List (List Token)}
    (h : ∀ tokens ∈ lists, AllTokensPrintable float tokens) :
    AllTokensPrintable float (ScriptHost.separated mark lists) := by
  cases lists with
  | nil => exact .nil
  | cons first rest =>
    obtain ⟨hfirst, hrest⟩ := List.forall_mem_cons.mp h
    exact hfirst.append (.flatMap fun tokens htokens => .cons hmark (hrest tokens htokens))

/-- What stands between the parentheses of a call. -/
theorem listed {lists : List (List Token)}
    (h : ∀ tokens ∈ lists, AllTokensPrintable float tokens) :
    AllTokensPrintable float (ScriptHost.parenthesized (ScriptHost.separated .comma lists)) :=
  parenthesized (@separated float .comma trivial lists h)

theorem names {mark : Token} (hmark : mark.Printable float) {names : List String}
    (h : ∀ name ∈ names, IsIdentifier name) :
    AllTokensPrintable float
      (ScriptHost.separated mark (names.map fun name => [Token.ident name])) := by
  refine .separated hmark fun tokens htokens => ?_
  obtain ⟨name, hname, rfl⟩ := List.mem_map.mp htokens
  exact .cons (h name hname) .nil

theorem dotted {path : List String} (h : ∀ name ∈ path, IsIdentifier name) :
    AllTokensPrintable float (ScriptHost.dotted path) :=
  @names float .dot trivial path h

theorem within {e : Expr} {limit : Nat} (h : AllTokensPrintable float e.tokens) :
    AllTokensPrintable float (e.within limit e.tokens) := by
  rw [Expr.within]
  split
  · exact h
  · exact h.parenthesized

end AllTokensPrintable

theorem BinaryOp.token_printable (op : BinaryOp) : op.token.Printable float := by
  cases op <;> trivial

theorem UnaryOp.token_printable (op : UnaryOp) : op.token.Printable float := by
  cases op <;> trivial

mutual

theorem Expr.tokens_printable : ∀ e : Expr, e.Printable float → AllTokensPrintable float e.tokens
  | .int .., h | .float .., h | .ident .., h => .cons h .nil
  | .str .., _ | .null _, _ | .this _, _ => .cons trivial .nil
  | .bool value _, _ => by cases value <;> exact .cons trivial .nil
  | .binary op left right _, h =>
    (tokens_printable left h.1).within.append
      (.cons op.token_printable (tokens_printable right h.2).within)
  | .unary op operand _, h => .cons op.token_printable (tokens_printable operand h).within
  | .call _ args _, h =>
    .cons h.1 (.listed (tokensEach_printable args h.2))
  | .methodCall object _ args _, h =>
    (tokens_printable object h.1).within.append (.cons trivial (.cons h.2.1
      (.listed (tokensEach_printable args h.2.2))))
  | .field object _ _, h =>
    (tokens_printable object h.1).within.append (.cons trivial (.cons h.2 .nil))
  | .create _ args _, h =>
    .cons trivial (.append (.dotted h.1.2) (.listed (tokensEach_printable args h.2)))

theorem Expr.tokensEach_printable : ∀ es : List Expr, Expr.AllPrintable float es →
    ∀ tokens ∈ Expr.tokensEach es, AllTokensPrintable float tokens
  | [], _ => nofun
  | e :: rest, h =>
    List.forall_mem_cons.mpr ⟨tokens_printable e h.1, tokensEach_printable rest h.2⟩

end

mutual

theorem Stmt.tokens_printable : ∀ s : Stmt, s.Printable float → AllTokensPrintable float s.tokens
  | .letVar _ value _, h =>
    .cons trivial (.cons h.1 (.cons trivial
      ((value.tokens_printable h.2).append (.cons trivial .nil))))
  | .assign target value _, h =>
    (target.tokens_printable h.2.1).append (.cons trivial
      ((value.tokens_printable h.2.2).append (.cons trivial .nil)))
  | .ifThen condition body _, h | .loop condition body _, h =>
    .cons trivial ((condition.tokens_printable h.1).append
      (.inBraces (tokensAll_printable body h.2)))
  | .ifElse condition body alternative _, h => by
    have halternative := tokensAll_printable alternative h.2.2
    refine .cons trivial ((condition.tokens_printable h.1).append
      (.append (.inBraces (tokensAll_printable body h.2.1)) (.cons trivial ?_)))
    split
    · exact halternative
    · exact halternative.inBraces
  | .ret none _, _ => .cons trivial (.cons trivial .nil)
  | .ret (some value) _, h =>
    .cons trivial ((value.tokens_printable (h value rfl)).append (.cons trivial .nil))
  | .block body _, h => .inBraces (tokensAll_printable body h)
  | .expr value, h => (value.tokens_printable h).append (.cons trivial .nil)

theorem Stmt.tokensAll_printable : ∀ body : List Stmt, Stmt.AllPrintable float body →
    AllTokensPrintable float (Stmt.tokensAll body)
  | [], _ => .nil
  | s :: rest, h => (tokens_printable s h.1).append (tokensAll_printable rest h.2)

end

theorem FieldDecl.tokens_printable (f : FieldDecl) (h : f.Printable float) :
    AllTokensPrintable float f.tokens := by
  refine .cons trivial (.cons h.1 (.append ?_ (.cons trivial .nil)))
  cases hinitial : f.initial with
  | none => exact .nil
  | some value => exact .cons trivial (value.tokens_printable (h.2 value hinitial))

theorem FunctionDecl.tokens_printable (f : FunctionDecl) (h : f.Printable float) :
    AllTokensPrintable float f.tokens :=
  .cons trivial (.cons h.1 (.append (.parenthesized (.names (by trivial) h.2.1))
    (.inBraces (Stmt.tokensAll_printable f.body h.2.2))))

theorem ClassDecl.tokens_printable (c : ClassDecl) (h : c.Printable float) :
    AllTokensPrintable float c.tokens :=
  .cons trivial (.cons h.1 (.inBraces
    (.append (.flatMap fun f hf => f.tokens_printable (h.2.1 f hf))
      (.flatMap fun m hm => m.tokens_printable (h.2.2 m hm)))))

mutual

theorem Item.tokens_printable : ∀ i : Item, i.Printable float → AllTokensPrintable float i.tokens
  | .space _ items _, h =>
    .cons trivial (.append (.dotted h.1.2) (.inBraces (tokensAll_printable items h.2)))
  | .classDecl c, h => c.tokens_printable h
  | .function f, h => f.tokens_printable h
  | .stmt s, h => s.tokens_printable h

theorem Item.tokensAll_printable : ∀ items : List Item, Item.AllPrintable float items →
    AllTokensPrintable float (Item.tokensAll items)
  | [], _ => .nil
  | i :: rest, h => (tokens_printable i h.1).append (tokensAll_printable rest h.2)

end

theorem map_blanksBetween : ∀ tokens : List Token, (blanksBetween tokens).map (·.1) = tokens
  | [] | [_] => rfl
  | token :: second :: rest => congrArg (token :: ·) (map_blanksBetween (second :: rest))

theorem spaced_blanksBetween : ∀ tokens : List Token, Spaced (blanksBetween tokens)
  | [] => trivial
  | [_] => .inl rfl
  | [_, _] => ⟨⟨_, _, rfl, rfl, .nothing⟩, .inl rfl⟩
  | _ :: second :: third :: rest =>
    ⟨⟨_, _, rfl, rfl, .nothing⟩, spaced_blanksBetween (second :: third :: rest)⟩

/-- The text of a tree has the tokens of the tree. -/
theorem lex_printed {items : List Item} (h : Item.AllPrintable float items) (file : Nat) :
    ∃ lexemes, lex (printed float items) file = .ok lexemes ∧
      lexemes.map Lexeme.token = Item.tokensAll items ++ [.eof] := by
  have hprint : ∀ entry ∈ blanksBetween (Item.tokensAll items), entry.1.Printable float := by
    intro entry hentry
    refine Item.tokensAll_printable items h _ ?_
    rw [← map_blanksBetween (Item.tokensAll items)]
    exact List.mem_map_of_mem hentry
  have hreads := Scan.reads_spaced hprint (spaced_blanksBetween _)
  rw [map_blanksBetween] at hreads
  exact Scan.lex_of_reads hreads file

end Tokens

/-! ## Reading undoes writing -/

/-- Lexemes with the tokens of a tree are read as that tree, wherever they stand, or the first error
is that the nesting is too deep. -/
theorem parse_tokens {float : Float → List Char} {items : List Item}
    (h : Item.AllPrintable float items) {lexemes : List Lexeme}
    (hlexemes : lexemes.map Lexeme.token = Item.tokensAll items ++ [.eof]) :
    (∃ found, parse lexemes = .ok found ∧ Item.bareAll found = Item.bareAll items) ∨
      ∃ span others, parse lexemes = .error (ParseError.tooDeep.placed span :: others) := by
  have hbefore : (Grammar.State.ofLexemes lexemes).Before (Item.tokensAll items) :=
    ⟨hlexemes, Nat.le_refl _, rfl⟩
  have hspells : Grammar.SpellsAtFirst (·.map Item.bare = items.map Item.bare) Grammar.sourceText
      (Item.tokensAll items) [] := Grammar.spells_sourceText (Grammar.itemsRecovered items h)
  unfold parse
  obtain ⟨found, s, hread, hfound, hs⟩ | hspoiled := hspells _ hbefore
  · refine .inl ⟨found, ?_, ?_⟩
    · rw [hread]
      dsimp only
      rw [hs.clean]
      rfl
    · rw [Item.bareAll_eq, Item.bareAll_eq, hfound]
  · right
    cases hread : Grammar.sourceText (.ofLexemes lexemes) with
    | ok found s =>
      rw [hread] at hspoiled
      obtain ⟨span, others, herrors⟩ := hspoiled
      refine ⟨span, others, ?_⟩
      dsimp only
      rw [if_neg, herrors]
      rw [← Array.isEmpty_toList, herrors]
      nofun
    | error e s =>
      rw [hread] at hspoiled
      obtain ⟨span, others, herrors⟩ := hspoiled
      exact ⟨span, others, by dsimp only; rw [herrors]⟩

/-- What a tree that can be written is written as is read back as the same tree up to places, or
reading finds errors of which the first is that the nesting is too deep. -/
theorem read_printed {float : Float → List Char} {items : List Item}
    (h : Item.AllPrintable float items) (file : Nat) :
    (∃ found, read (printed float items) file = .ok found ∧
        Item.bareAll found = Item.bareAll items) ∨
      ∃ span others, read (printed float items) file =
        .error (ParseError.tooDeep.placed span :: others) := by
  obtain ⟨lexemes, hlex, htokens⟩ := lex_printed h file
  have hread : read (printed float items) file = parse lexemes := by
    rw [read, hlex]
    rfl
  rw [hread]
  exact parse_tokens h htokens

/-- A namespace with a class in it, a chain of conditionals, and operators of several levels. -/
def sampleItems : List Item :=
  [.space ["a", "b"] [.classDecl ⟨"C", [⟨"f", some (.float 1.5 .nowhere), .nowhere⟩],
    [⟨"m", ["x", "y"], [.ifElse (.unary .not (.ident "x" .nowhere) .nowhere)
      [.assign (.field (.this .nowhere) "f" .nowhere)
        (.binary .mul (.binary .add (.ident "x" .nowhere) (.int 1 .nowhere) .nowhere)
          (.ident "y" .nowhere) .nowhere) .nowhere]
      [.ifThen (.bool true .nowhere) [.ret none .nowhere] .nowhere] .nowhere],
      .nowhere⟩], .nowhere⟩] .nowhere]

theorem sampleItems_printable : Item.AllPrintable (fun _ => ['1', '.', '5']) sampleItems := by
  have hname (name : String) (c : Char) (h : name.toList = [c]) (hc : Scan.isWordStart c = true)
      (hword : name ∉ Scan.keywords) : IsIdentifier name :=
    ⟨⟨c, [], h, hc, nofun⟩, hword⟩
  have ha := hname "a" 'a' (by decide) rfl (by decide)
  have hb := hname "b" 'b' (by decide) rfl (by decide)
  have hC := hname "C" 'C' (by decide) rfl (by decide)
  have hf := hname "f" 'f' (by decide) rfl (by decide)
  have hm := hname "m" 'm' (by decide) rfl (by decide)
  have hx := hname "x" 'x' (by decide) rfl (by decide)
  have hy := hname "y" 'y' (by decide) rfl (by decide)
  have hfloat : ReadsBack ['1', '.', '5'] 1.5 :=
    ⟨['1'], ['5'], rfl, by decide, by decide, List.all_eq_true.mp rfl, List.all_eq_true.mp rfl,
      by decide +kernel⟩
  have hone : 0 ≤ (1 : Int64).toInt := by decide
  simp [sampleItems, Item.AllPrintable, Item.Printable, ClassDecl.Printable, FieldDecl.Printable,
    FunctionDecl.Printable, Stmt.AllPrintable, Stmt.Printable, Expr.Printable, Expr.isAssignable, *]

/-- The sample is written without a parenthesis too many, and read back. -/
theorem sampleItems_read_back :
    printed (fun _ => ['1', '.', '5']) sampleItems =
        "namespace a . b \x7b class C \x7b let f = 1.5 ; fn m ( x , y ) \x7b " ++
          "if ! x \x7b this . f = ( x + 1 ) * y ; \x7d " ++
          "else if true \x7b return ; \x7d \x7d \x7d \x7d" ∧
      ∃ found, read (printed (fun _ => ['1', '.', '5']) sampleItems) 0 = .ok found ∧
        Item.bareAll found = Item.bareAll sampleItems := by
  refine ⟨by decide +kernel, (read_printed sampleItems_printable 0).resolve_right ?_⟩
  have hread : (read (printed (fun _ => ['1', '.', '5']) sampleItems) 0).isOk = true := by
    rw [printed, layOut, read, lex, String.toList_ofList]
    decide +kernel
  rintro ⟨span, others, herror⟩
  rw [herror] at hread
  cases hread

/-- Blocks with nothing in them but one another. -/
def nestedBlocks : Nat → Stmt
  | 0 => .block [] .nowhere
  | depth + 1 => .block [nestedBlocks depth] .nowhere

theorem nestedBlocks_printable (float : Float → List Char) :
    ∀ depth, (nestedBlocks depth).Printable float
  | 0 => trivial
  | depth + 1 => ⟨nestedBlocks_printable float depth, trivial⟩

/-- What is wrong with a text that could not be read. -/
def complaints : Except (List Diagnostic) (List Item) → List Diagnostic
  | .ok _ => []
  | .error errors => errors

/-- Reading 65 nested blocks complains not only about the nesting. -/
theorem nested_blocks_leave_braces :
    Item.AllPrintable (fun _ => []) [.stmt (nestedBlocks 64)] ∧
      ∃ errors, read (printed (fun _ => []) [.stmt (nestedBlocks 64)]) 0 = .error errors ∧
        ∃ e ∈ errors, e.message ≠ ParseError.tooDeep.message := by
  refine ⟨⟨nestedBlocks_printable _ 64, trivial⟩, ?_⟩
  have hcomplaints : ∃ e ∈ complaints (read (printed (fun _ => []) [.stmt (nestedBlocks 64)]) 0),
      e.message ≠ ParseError.tooDeep.message := by
    rw [printed, layOut, read, lex, String.toList_ofList]
    decide +kernel
  obtain ⟨e, he, hmessage⟩ := hcomplaints
  cases hread : read (printed (fun _ => []) [.stmt (nestedBlocks 64)]) 0 with
  | ok items =>
    rw [hread] at he
    cases he
  | error errors =>
    rw [hread] at he
    exact ⟨errors, rfl, e, he, hmessage⟩

end ScriptHost
