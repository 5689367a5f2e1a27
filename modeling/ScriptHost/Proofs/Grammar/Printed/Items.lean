import ScriptHost.Proofs.Grammar.Printed.Statements
/-!
# Declarations and items are recovered from their tokens

Functions and classes come first, then what stands at the top of a text or in a namespace.
-/

set_option autoImplicit false

namespace ScriptHost

namespace Grammar

theorem spells_parameters {rest : List Token} :
    ∀ (params found : List String) (count : Nat), params.length < count →
      Spells (· = found.reverse ++ params) (parameters count found)
        (separated .comma (params.map fun name => [Token.ident name]) ++ .rparen :: rest)
        (.rparen :: rest)
  | _, _, 0, hcount => absurd hcount (Nat.not_lt_zero _)
  | [], found, count + 1, _ => by
    refine Spells.peek.bind fun token htoken => ?_
    subst htoken
    exact .pure (List.append_nil _).symm
  | [name], found, count + 1, _ => by
    refine Spells.peek.bind fun token htoken => ?_
    subst htoken
    refine Spells.identifier.bind ?_
    rintro _ rfl
    refine Spells.peek.bind fun token htoken => ?_
    subst htoken
    exact .pure List.reverse_cons
  | name :: second :: params, found, count + 1, hcount => by
    change Spells _ _ (.ident name :: .comma :: (separated .comma
      ((second :: params).map fun name => [Token.ident name]) ++ .rparen :: rest)) _
    refine Spells.peek.bind fun token htoken => ?_
    subst htoken
    refine Spells.identifier.bind ?_
    rintro _ rfl
    refine Spells.peek.bind fun token htoken => ?_
    subst htoken
    refine Spells.advance.bind fun _ _ => ?_
    refine (spells_parameters (second :: params) (_ :: found) count
      (Nat.lt_of_succ_lt_succ hcount)).mono ?_
    rintro _ rfl
    rw [List.reverse_cons, List.append_assoc]
    rfl

theorem length_le_separated (params : List String) (rest : List Token) :
    params.length ≤
      (separated .comma (params.map fun name => [Token.ident name]) ++ rest).length := by
  cases params with
  | nil => exact Nat.zero_le _
  | cons name params =>
    have hlength := length_le_flatMap_cons .comma (params.map fun name => [Token.ident name]) rest
    rw [List.length_map] at hlength
    exact Nat.succ_le_succ hlength

variable {float : Float → List Char}

/-- A function is read back. -/
theorem spells_functionDecl {f : FunctionDecl} (hf : f.Printable float) (rest : List Token) :
    Spells (·.bare = f.bare) functionDecl (f.tokens ++ rest) rest := by
  obtain ⟨-, -, hbody⟩ := hf
  have htokens : f.tokens ++ rest = .kwFn :: .ident f.name :: .lparen ::
      (separated .comma (f.params.map fun name => [Token.ident name]) ++ .rparen :: .lbrace ::
        (Stmt.tokensAll f.body ++ .rbrace :: rest)) := by
    rw [FunctionDecl.tokens, List.cons_append, List.cons_append, List.append_assoc,
      parenthesized_append, inBraces_append]
  rw [htokens]
  refine Spells.here.bind fun _ _ => Spells.expect.bind fun _ _ => Spells.identifier.bind ?_
  rintro name hname
  refine Spells.expect.bind fun _ _ => Spells.budget.bind fun count hcount => ?_
  refine (spells_parameters f.params [] count
    (Nat.lt_of_le_of_lt (length_le_separated f.params _) hcount)).bind fun params hparams => ?_
  refine Spells.expect.bind fun _ _ => Spells.expect.bind fun _ _ => ?_
  refine (spells_block (stmtsRecovered f.body hbody)).nested.bind fun body hbodies => ?_
  refine Spells.here.bind fun _ _ => Spells.expect.bind fun _ _ => .pure ?_
  rw [Stmt.bareAll_eq, Stmt.bareAll_eq] at hbodies
  rw [FunctionDecl.bare, FunctionDecl.bare, hname, hparams, hbodies]
  rfl

/-- A field is read back. -/
theorem spells_fieldDecl {f : FieldDecl} (hf : f.Printable float) (rest : List Token) :
    Spells (·.bare = f.bare) fieldDecl (f.tokens ++ rest) rest := by
  obtain ⟨-, hinitial⟩ := hf
  obtain ⟨name, initial, span⟩ := f
  cases initial with
  | none =>
    refine Spells.here.bind fun _ _ => Spells.advance.bind fun _ _ => Spells.identifier.bind ?_
    rintro _ rfl
    refine Spells.peek.bind fun token htoken => ?_
    subst htoken
    refine (Spells.answer none).bind ?_
    rintro _ rfl
    exact Spells.here.bind fun _ _ => Spells.expect.bind fun _ _ => .pure rfl
  | some e =>
    have htokens : FieldDecl.tokens ⟨name, some e, span⟩ ++ rest =
        .kwLet :: .ident name :: .eq :: (e.tokens ++ .semicolon :: rest) :=
      congrArg (Token.kwLet :: .ident name :: .eq :: ·) (List.append_assoc ..)
    rw [htokens]
    refine Spells.here.bind fun _ _ => Spells.advance.bind fun _ _ => Spells.identifier.bind ?_
    rintro _ rfl
    refine Spells.peek.bind fun token htoken => ?_
    subst htoken
    refine Spells.advance.bind fun _ _ => ?_
    refine (spells_expression (hinitial e rfl) .semicolon (by simp) rest).bind fun found hfound => ?_
    refine (Spells.answer (some found)).bind ?_
    rintro _ rfl
    refine Spells.here.bind fun _ _ => Spells.expect.bind fun _ _ => .pure ?_
    rw [FieldDecl.bare, FieldDecl.bare, Option.map_some, Option.map_some, hfound]

/-- Behind a member of a class, another one follows or the brace that closes the class. -/
theorem nextOf_methods_ne (methods : List FunctionDecl) (rest : List Token) :
    nextOf (methods.flatMap FunctionDecl.tokens ++ .rbrace :: rest) ≠ .semicolon := by
  cases methods <;> nofun

theorem nextOf_fields_ne (fields : List FieldDecl) (methods : List FunctionDecl)
    (rest : List Token) :
    nextOf (fields.flatMap FieldDecl.tokens ++
      (methods.flatMap FunctionDecl.tokens ++ .rbrace :: rest)) ≠ .semicolon := by
  cases fields with
  | nil => exact nextOf_methods_ne methods rest
  | cons _ _ => nofun

theorem spells_methods {rest : List Token} (fields : List FieldDecl) :
    ∀ (methods found : List FunctionDecl) (count : Nat), methods.length < count →
      (∀ m ∈ methods, m.Printable float) →
      Spells (fun all => all.1 = fields.reverse ∧ all.2.map FunctionDecl.bare =
          (found.reverse ++ methods).map FunctionDecl.bare)
        (members count fields found) (methods.flatMap FunctionDecl.tokens ++ .rbrace :: rest)
        (.rbrace :: rest)
  | _, _, 0, hcount, _ => absurd hcount (Nat.not_lt_zero _)
  | [], found, count + 1, _, _ => by
    refine Spells.peek.bind fun token htoken => ?_
    subst htoken
    exact .pure ⟨rfl, by rw [List.append_nil]⟩
  | m :: methods, found, count + 1, hcount, hmethods => by
    obtain ⟨hone, hmethods⟩ := List.forall_mem_cons.mp hmethods
    rw [List.flatMap_cons, List.append_assoc]
    refine Spells.peek.bind fun token htoken => ?_
    subst htoken
    refine (spells_functionDecl hone _).bind fun method hmethod => ?_
    refine (Spells.skipSemicolons (nextOf_methods_ne methods rest)).bind fun _ _ => ?_
    refine (spells_methods fields methods (method :: found) count (Nat.lt_of_succ_lt_succ hcount)
      hmethods).mono fun all hall => ⟨hall.1, ?_⟩
    rw [hall.2]
    simp [hmethod]

theorem spells_members {rest : List Token} {methods : List FunctionDecl}
    (hmethods : ∀ m ∈ methods, m.Printable float) :
    ∀ (fields found : List FieldDecl) (count : Nat), fields.length + methods.length < count →
      (∀ f ∈ fields, f.Printable float) →
      Spells (fun all => all.1.map FieldDecl.bare = (found.reverse ++ fields).map FieldDecl.bare ∧
          all.2.map FunctionDecl.bare = methods.map FunctionDecl.bare)
        (members count found []) (fields.flatMap FieldDecl.tokens ++
          (methods.flatMap FunctionDecl.tokens ++ .rbrace :: rest)) (.rbrace :: rest)
  | _, _, 0, hcount, _ => absurd hcount (Nat.not_lt_zero _)
  | [], found, count + 1, hcount, _ => by
    refine (spells_methods found methods [] (count + 1) (by simpa using hcount) hmethods).mono
      fun all hall => ⟨?_, hall.2⟩
    rw [hall.1, List.append_nil]
  | f :: fields, found, count + 1, hcount, hfields => by
    obtain ⟨hone, hfields⟩ := List.forall_mem_cons.mp hfields
    rw [List.length_cons] at hcount
    rw [List.flatMap_cons, List.append_assoc]
    refine Spells.peek.bind fun token htoken => ?_
    subst htoken
    refine (spells_fieldDecl hone _).bind fun field hfield => ?_
    refine (Spells.skipSemicolons (nextOf_fields_ne fields methods rest)).bind fun _ _ => ?_
    refine (spells_members hmethods fields (field :: found) count (by omega) hfields).mono
      fun all hall => ⟨?_, hall.2⟩
    rw [hall.1]
    simp [hfield]

theorem length_le_members (fields : List FieldDecl) (methods : List FunctionDecl)
    (rest : List Token) : fields.length + methods.length ≤ (fields.flatMap FieldDecl.tokens ++
      (methods.flatMap FunctionDecl.tokens ++ rest)).length := by
  have hfields : fields.length ≤ (fields.flatMap FieldDecl.tokens).length := by
    induction fields with
    | nil => exact Nat.le_refl 0
    | cons f fields ih =>
      rw [List.flatMap_cons, List.length_append, FieldDecl.tokens]
      simp only [List.length_cons]
      omega
  have hmethods : methods.length ≤ (methods.flatMap FunctionDecl.tokens).length := by
    induction methods with
    | nil => exact Nat.le_refl 0
    | cons m methods ih =>
      rw [List.flatMap_cons, List.length_append, FunctionDecl.tokens]
      simp only [List.length_cons]
      omega
  rw [List.length_append, List.length_append]
  omega

/-- A class is read back. -/
theorem spells_classDecl {c : ClassDecl} (hc : c.Printable float) (rest : List Token) :
    Spells (·.bare = c.bare) classDecl (c.tokens ++ rest) rest := by
  obtain ⟨-, hfields, hmethods⟩ := hc
  have htokens : c.tokens ++ rest = .kwClass :: .ident c.name :: .lbrace ::
      (c.fields.flatMap FieldDecl.tokens ++
        (c.methods.flatMap FunctionDecl.tokens ++ .rbrace :: rest)) := by
    rw [ClassDecl.tokens, List.cons_append, List.cons_append, inBraces_append, List.append_assoc]
  rw [htokens]
  refine Spells.here.bind fun _ _ => Spells.expect.bind fun _ _ => Spells.identifier.bind ?_
  rintro name hname
  refine Spells.expect.bind fun _ _ => ?_
  refine (Spells.skipSemicolons (nextOf_fields_ne c.fields c.methods rest)).bind fun _ _ => ?_
  refine Spells.budget.bind fun count hcount => ?_
  refine (spells_members hmethods c.fields [] count
    (Nat.lt_of_le_of_lt (length_le_members c.fields c.methods _) hcount) hfields).bind ?_
  rintro ⟨fields, methods⟩ ⟨hfound, hfound'⟩
  refine Spells.here.bind fun _ _ => Spells.expect.bind fun _ _ => .pure ?_
  rw [ClassDecl.bare, ClassDecl.bare, hname, hfound, hfound']
  rfl

end Grammar

end ScriptHost

/-! ## Items are recovered from their tokens

Behind an error reading goes on at a likely start of the next item. What is found there need not be
what was written, so all that can be said then is that the first error stays the first:
`SpellsAtFirst` is the judgement for rules in which reading may have gone on. -/

namespace ScriptHost

namespace Grammar

/-- The first of some errors is that the nesting is too deep. -/
def TooDeepFirst (errors : List Diagnostic) : Prop :=
  ∃ span others, errors = ParseError.tooDeep.placed span :: others

theorem TooDeepFirst.of_clean {s : State} (h : s.errors = #[]) {span : Span} :
    TooDeepFirst (s.errors.push (ParseError.tooDeep.placed span)).toList :=
  ⟨span, [], by rw [h]; rfl⟩

theorem TooDeepFirst.push {errors : Array Diagnostic} (h : TooDeepFirst errors.toList)
    (e : Diagnostic) : TooDeepFirst (errors.push e).toList := by
  obtain ⟨span, others, herrors⟩ := h
  exact ⟨span, others ++ [e], by rw [Array.toList_push, herrors, List.cons_append]⟩

/-- An outcome of which the first error is that the nesting is too deep. -/
def Spoiled {α : Type} : EStateM.Result Diagnostic State α → Prop
  | .ok _ s => TooDeepFirst s.errors.toList
  | .error e s => TooDeepFirst (s.errors.push e).toList

/-- Whatever is read behind an error, the first error stays the first. -/
theorem Stepwise.spoiled {α : Type} {rule : Rule α} (h : Stepwise rule) :
    ∀ s : State, TooDeepFirst s.errors.toList → Spoiled (rule s) := by
  induction h with
  | pure _ | look | depth _ => exact fun s hs => hs
  | bind _ _ ihfirst ihrest =>
    intro s hs
    rename_i rule next _ _
    have hfirst := ihfirst s hs
    cases hrule : rule s with
    | ok a after =>
      rw [hrule] at hfirst
      rw [bind_of_ok hrule]
      exact ihrest a after hfirst
    | error e after =>
      rw [hrule] at hfirst
      rw [bind_of_error hrule]
      exact hfirst
  | fail e span => exact fun s hs => hs.push _
  | advance =>
    intro s hs
    change TooDeepFirst s.advance.errors.toList
    rwa [s.errors_advance]
  | skipSemicolons =>
    intro s hs
    change TooDeepFirst (s.pastSemicolons s.rest).errors.toList
    rwa [s.errors_pastSemicolons]
  | report e span => exact fun s hs => hs.push _
  | ascending _ ih =>
    rename_i rule _
    intro s hs
    have hinner := ih s hs
    unfold Grammar.ascending
    cases hrule : rule s with
    | ok a after =>
      rw [hrule] at hinner
      exact hinner
    | error e after =>
      rw [hrule] at hinner
      exact hinner
  | recovering _ ih =>
    rename_i rule _
    intro s hs
    have hinner := ih s hs
    unfold Grammar.recovering
    cases hrule : rule s with
    | ok a after =>
      rw [hrule] at hinner
      exact hinner
    | error e after =>
      rw [hrule] at hinner
      change TooDeepFirst (synchronize _ _ _).errors.toList
      rwa [State.errors_synchronize]

/-- An outcome of reading as far as `rest`: something right and no error, or a first error that the
nesting is too deep. -/
def ComesOrSpoils {α : Type} (right : α → Prop) (rest : List Token)
    (outcome : EStateM.Result Diagnostic State α) : Prop :=
  (∃ a s, outcome = .ok a s ∧ right a ∧ s.Before rest) ∨ Spoiled outcome

/-- The rule reads the tokens as far as `rest` as something right, or its first error is that the
nesting is too deep. Other than in `Spells`, reading may have gone on behind that error. -/
def SpellsAtFirst {α : Type} (right : α → Prop) (rule : Rule α) (tokens rest : List Token) : Prop :=
  ∀ s : State, s.Before tokens → ComesOrSpoils right rest (rule s)

section Judgement

variable {α β : Type} {right : α → Prop} {rule : Rule α} {tokens middle rest : List Token}

theorem Spells.atFirst (h : Spells right rule tokens rest) : SpellsAtFirst right rule tokens rest := by
  intro s hs
  have houtcome := h s hs
  cases hresult : rule s with
  | ok a after =>
    rw [hresult] at houtcome
    obtain ⟨ha, hafter⟩ | _ := houtcome
    exact .inl ⟨a, after, rfl, ha, hafter⟩
  | error e after =>
    rw [hresult] at houtcome
    obtain _ | hclean := houtcome
    exact .inr (.of_clean hclean)

namespace SpellsAtFirst

theorem bind {final : β → Prop} {next : α → Rule β} (h : SpellsAtFirst right rule tokens middle)
    (hsteps : ∀ a, Stepwise (next a))
    (hnext : ∀ a, right a → SpellsAtFirst final (next a) middle rest) :
    SpellsAtFirst final (rule >>= next) tokens rest := by
  intro s hs
  obtain ⟨a, after, hresult, ha, hafter⟩ | hspoiled := h s hs
  · rw [bind_of_ok hresult]
    exact hnext a ha after hafter
  · cases hresult : rule s with
    | ok a after =>
      rw [hresult] at hspoiled
      rw [bind_of_ok hresult]
      exact .inr ((hsteps a).spoiled after hspoiled)
    | error e after =>
      rw [hresult] at hspoiled
      rw [bind_of_error hresult]
      exact .inr hspoiled

theorem mono {weaker : α → Prop} (h : SpellsAtFirst right rule tokens rest)
    (himp : ∀ a, right a → weaker a) : SpellsAtFirst weaker rule tokens rest := by
  intro s hs
  obtain ⟨a, after, hresult, ha, hafter⟩ | hspoiled := h s hs
  · exact .inl ⟨a, after, hresult, himp a ha, hafter⟩
  · exact .inr hspoiled

theorem ascending (h : SpellsAtFirst right rule tokens rest) :
    SpellsAtFirst right (ascending rule) tokens rest := by
  intro s hs
  unfold Grammar.ascending
  obtain ⟨a, after, hresult, ha, hafter⟩ | hspoiled := h s hs
  · rw [hresult]
    exact .inl ⟨a, _, rfl, ha, hafter.withDepth _⟩
  · cases hresult : rule s with
    | ok a after =>
      rw [hresult] at hspoiled
      exact .inr hspoiled
    | error e after =>
      rw [hresult] at hspoiled
      exact .inr hspoiled

theorem recovering (h : SpellsAtFirst right rule tokens rest) :
    SpellsAtFirst (fun found => ∃ a, found = some a ∧ right a) (recovering rule) tokens rest := by
  intro s hs
  unfold Grammar.recovering
  obtain ⟨a, after, hresult, ha, hafter⟩ | hspoiled := h s hs
  · rw [hresult]
    exact .inl ⟨some a, after, rfl, ⟨a, rfl, ha⟩, hafter⟩
  · cases hresult : rule s with
    | ok a after =>
      rw [hresult] at hspoiled
      exact .inr hspoiled
    | error e after =>
      rw [hresult] at hspoiled
      refine .inr ?_
      change TooDeepFirst (synchronize _ _ _).errors.toList
      rwa [State.errors_synchronize]

end SpellsAtFirst

/-- Reading that begins with a rule which does not recover. -/
theorem Spells.bindAtFirst {final : β → Prop} {next : α → Rule β}
    (h : Spells right rule tokens middle)
    (hnext : ∀ a, right a → SpellsAtFirst final (next a) middle rest) :
    SpellsAtFirst final (rule >>= next) tokens rest := by
  intro s hs
  have hfirst := h s hs
  cases hresult : rule s with
  | ok a after =>
    rw [hresult] at hfirst
    obtain ⟨ha, hafter⟩ | _ := hfirst
    rw [bind_of_ok hresult]
    exact hnext a ha after hafter
  | error e after =>
    rw [hresult] at hfirst
    obtain _ | hclean := hfirst
    rw [bind_of_error hresult]
    exact .inr (.of_clean hclean)

end Judgement

/-! ## Items -/

/-- An item is read back where no `else` stands behind it. -/
def ItemRecovered (item : Item) : Prop :=
  ∀ (fuel : Nat) (rest : List Token), nextOf rest ≠ .kwElse →
    SpellsAtFirst (fun found => ∃ i, found = some i ∧ i.bare = item.bare) (itemWithin fuel)
      (item.tokens ++ rest) rest

/-- Whether an item can begin with the token. -/
def beginsItem : Token → Bool
  | .kwNamespace | .kwClass | .kwFn => true
  | token => token.beginsStmt

theorem beginsItem_of_beginsStmt {token : Token} (h : token.beginsStmt = true) :
    beginsItem token = true := by
  unfold beginsItem
  split <;> first | rfl | exact h

theorem beginsItem_tokens (item : Item) (rest : List Token) :
    beginsItem (nextOf (item.tokens ++ rest)) = true := by
  cases item with
  | stmt s =>
    rw [Item.tokens]
    exact beginsItem_of_beginsStmt (beginsStmt_tokens s rest)
  | _ => rfl

theorem nextOf_item_ne {token : Token} (htoken : beginsItem token = false) (item : Item)
    (rest : List Token) : nextOf (item.tokens ++ rest) ≠ token := by
  rintro rfl
  rw [beginsItem_tokens item rest] at htoken
  cases htoken

/-- Behind an item stands an item, or what stands behind the last one. -/
theorem nextOf_items_ne {token : Token} (htoken : beginsItem token = false) {rest : List Token}
    (hrest : nextOf rest ≠ token) (items : List Item) :
    nextOf (Item.tokensAll items ++ rest) ≠ token := by
  cases items with
  | nil => exact hrest
  | cons item items =>
    rw [Item.tokensAll, List.append_assoc]
    exact nextOf_item_ne htoken item _

theorem length_le_itemTokens (items : List Item) (rest : List Token) :
    items.length ≤ (Item.tokensAll items ++ rest).length := by
  induction items with
  | nil => exact Nat.zero_le _
  | cons item items ih =>
    have hsome : item.tokens ≠ [] := fun hnil => by
      have hbegin := beginsItem_tokens item []
      rw [hnil] at hbegin
      cases hbegin
    have hlength := List.length_pos_iff.mpr hsome
    rw [Item.tokensAll, List.append_assoc, List.length_append, List.length_cons]
    omega

variable {float : Float → List Char}

theorem itemRecovered_of_over {item : Item}
    (h : ∀ fuel rest, nextOf rest ≠ .kwElse →
      SpellsAtFirst (·.bare = item.bare) (itemOver (itemWithin fuel)) (item.tokens ++ rest) rest) :
    ItemRecovered item := by
  intro fuel rest hrest
  cases fuel with
  | zero => exact Spells.tooDeep.atFirst
  | succ fuel => exact (h fuel rest hrest).recovering

theorem itemRecovered_of_stmt {s : Stmt} (hs : s.Printable float) : ItemRecovered (.stmt s) := by
  refine itemRecovered_of_over fun fuel rest hrest => Spells.atFirst ?_
  rw [Item.tokens]
  refine Spells.peek.bind fun token htoken => ?_
  have hbegin := beginsStmt_tokens s rest
  rw [← htoken] at hbegin
  split
  case h_4 =>
    refine ((stmtRecovered s hs).whole _ rest hrest).bind fun found hfound => .pure ?_
    rw [Item.bare, Item.bare, hfound]
  all_goals cases hbegin

theorem itemRecovered_of_function {f : FunctionDecl} (hf : f.Printable float) :
    ItemRecovered (.function f) := by
  refine itemRecovered_of_over fun fuel rest _ => Spells.atFirst ?_
  rw [Item.tokens]
  refine Spells.peek.bind fun token htoken => ?_
  subst htoken
  refine (spells_functionDecl hf rest).bind fun found hfound => .pure ?_
  rw [Item.bare, Item.bare, hfound]

theorem itemRecovered_of_class {c : ClassDecl} (hc : c.Printable float) :
    ItemRecovered (.classDecl c) := by
  refine itemRecovered_of_over fun fuel rest _ => Spells.atFirst ?_
  rw [Item.tokens]
  refine Spells.peek.bind fun token htoken => ?_
  subst htoken
  refine (spells_classDecl hc rest).bind fun found hfound => .pure ?_
  rw [Item.bare, Item.bare, hfound]

theorem spells_itemList {fuel : Nat} {rest : List Token} :
    ∀ (items found : List Item) (count : Nat), items.length < count →
      (∀ i ∈ items, ItemRecovered i) →
      SpellsAtFirst (·.map Item.bare = (found.reverse ++ items).map Item.bare)
        (itemList (itemWithin fuel) count found) (Item.tokensAll items ++ .rbrace :: rest)
        (.rbrace :: rest)
  | _, _, 0, hcount, _ => absurd hcount (Nat.not_lt_zero _)
  | [], found, count + 1, _, _ => by
    refine Spells.peek.bindAtFirst fun token htoken => ?_
    subst htoken
    exact (Spells.pure (by rw [List.append_nil])).atFirst
  | i :: items, found, count + 1, hcount, hitems => by
    obtain ⟨hone, hitems⟩ := List.forall_mem_cons.mp hitems
    rw [Item.tokensAll, List.append_assoc]
    refine Spells.peek.bindAtFirst fun token htoken => ?_
    have hgoes : closes .rbrace token = false := by
      rw [closes, htoken, Bool.or_eq_false_iff]
      exact ⟨beq_false_of_ne (nextOf_item_ne rfl i _), beq_false_of_ne (nextOf_item_ne rfl i _)⟩
    rw [if_neg (by rw [hgoes]; exact Bool.false_ne_true)]
    refine (hone fuel _ (nextOf_items_ne rfl (by simp) items)).bind
      (fun next => Stepwise.skipSemicolons.bind fun _ => Stepwise.itemList (.itemWithin fuel) _ _) ?_
    rintro _ ⟨item, rfl, hitem⟩
    refine (Spells.skipSemicolons (nextOf_items_ne rfl (by simp) items)).bindAtFirst fun _ _ => ?_
    refine (spells_itemList items (item :: found) count (Nat.lt_of_succ_lt_succ hcount)
      hitems).mono fun all hall => ?_
    rw [hall]
    simp [hitem]

theorem itemRecovered_of_space {path : List String} {items : List Item} {span : Span}
    (hpath : path ≠ []) (hitems : ∀ i ∈ items, ItemRecovered i) :
    ItemRecovered (.space path items span) := by
  refine itemRecovered_of_over fun fuel rest _ => ?_
  rw [Item.tokens, List.cons_append, List.append_assoc, inBraces_append]
  refine Spells.peek.bindAtFirst fun token htoken => ?_
  subst htoken
  refine Spells.here.bindAtFirst fun start _ => Spells.expect.bindAtFirst fun _ _ => ?_
  refine (spells_dottedName hpath (by simp)).bindAtFirst ?_
  rintro _ rfl
  refine Spells.expect.bindAtFirst fun _ _ => ?_
  refine (Spells.skipSemicolons (nextOf_items_ne rfl (by simp) items)).bindAtFirst fun _ _ => ?_
  have hlist : SpellsAtFirst (·.map Item.bare = items.map Item.bare)
      (do itemList (itemWithin fuel) (← budget) []) (Item.tokensAll items ++ .rbrace :: rest)
      (.rbrace :: rest) :=
    Spells.budget.bindAtFirst fun count hcount => spells_itemList items [] count
      (Nat.lt_of_le_of_lt (length_le_itemTokens items _) hcount) hitems
  refine (Spells.descend.bindAtFirst fun _ _ => hlist.ascending).bind (fun found =>
    Stepwise.here.bind fun _ => (Stepwise.expect _ _).bind fun _ => .pure _) fun found hfound => ?_
  refine (Spells.here.bind fun stop _ => Spells.expect.bind fun _ _ => .pure ?_).atFirst
  rw [Item.bare, Item.bare, Item.bareAll_eq, Item.bareAll_eq, hfound]

mutual

/-- Every item that can be written is read back. -/
theorem itemRecovered : ∀ item : Item, item.Printable float → ItemRecovered item
  | .space _ items _, h => itemRecovered_of_space h.1.1 (itemsRecovered items h.2)
  | .classDecl _, h => itemRecovered_of_class h
  | .function _, h => itemRecovered_of_function h
  | .stmt _, h => itemRecovered_of_stmt h

theorem itemsRecovered :
    ∀ items : List Item, Item.AllPrintable float items → ∀ i ∈ items, ItemRecovered i
  | [], _ => nofun
  | i :: rest, h => List.forall_mem_cons.mpr ⟨itemRecovered i h.1, itemsRecovered rest h.2⟩

end

theorem spells_topLevel :
    ∀ (items found : List Item) (count : Nat), items.length < count →
      (∀ i ∈ items, ItemRecovered i) →
      SpellsAtFirst (·.map Item.bare = (found.reverse ++ items).map Item.bare)
        (topLevel count found) (Item.tokensAll items) []
  | _, _, 0, hcount, _ => absurd hcount (Nat.not_lt_zero _)
  | [], found, count + 1, _, _ => by
    refine Spells.peek.bindAtFirst fun token htoken => ?_
    subst htoken
    exact (Spells.pure (by rw [List.append_nil])).atFirst
  | i :: items, found, count + 1, hcount, hitems => by
    obtain ⟨hone, hitems⟩ := List.forall_mem_cons.mp hitems
    have hbehind {token : Token} (htoken : beginsItem token = false) (hend : token ≠ .eof) :
        nextOf (Item.tokensAll items) ≠ token := by
      rw [← List.append_nil (Item.tokensAll items)]
      exact nextOf_items_ne htoken (show nextOf [] ≠ token from hend.symm) items
    rw [Item.tokensAll]
    refine Spells.peek.bindAtFirst fun token htoken => ?_
    have hbegin := beginsItem_tokens i (Item.tokensAll items)
    rw [← htoken] at hbegin
    split
    case h_3 =>
      refine (hone _ _ (hbehind rfl nofun)).bind
        (fun next => Stepwise.skipSemicolons.bind fun _ => Stepwise.topLevel _ _) ?_
      rintro _ ⟨item, rfl, hitem⟩
      refine (Spells.skipSemicolons (hbehind rfl nofun)).bindAtFirst fun _ _ => ?_
      refine (spells_topLevel items (item :: found) count (Nat.lt_of_succ_lt_succ hcount)
        hitems).mono fun all hall => ?_
      rw [hall]
      simp [hitem]
    all_goals cases hbegin

/-- The items of a whole source text. -/
theorem spells_sourceText {items : List Item} (hitems : ∀ i ∈ items, ItemRecovered i) :
    SpellsAtFirst (·.map Item.bare = items.map Item.bare) sourceText (Item.tokensAll items) [] := by
  have hbegin : nextOf (Item.tokensAll items) ≠ .semicolon := by
    rw [← List.append_nil (Item.tokensAll items)]
    exact nextOf_items_ne rfl (show nextOf [] ≠ .semicolon by nofun) items
  have hlength := length_le_itemTokens items []
  rw [List.append_nil] at hlength
  refine (Spells.skipSemicolons hbegin).bindAtFirst fun _ _ => ?_
  exact Spells.budget.bindAtFirst fun count hcount =>
    spells_topLevel items [] count (Nat.lt_of_le_of_lt hlength hcount) hitems

end Grammar

end ScriptHost
