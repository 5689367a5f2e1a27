import Mathlib.Data.List.Induction
import ScriptHost.Engine.Basic
import ScriptHost.Proofs.Code.Room
import ScriptHost.Proofs.Grammar.Placed
import ScriptHost.Proofs.Grammar.Steps
import ScriptHost.Proofs.Scope.Places
import ScriptHost.Proofs.Scope.Routines
import ScriptHost.Proofs.Token.Places
/-!
# Which source text is to blame

Each diagnostic of a build is about one of the source texts: the one that cannot be read, the one
whose names are looked at when the diagnostic is given, or the first one that there is no room for
in the code. `Blamed` tells which it is without a look at the place in the diagnostic,
`exists_blamed` says that there always is one, and `Blamed.place` compares it with the place.

Whoever looks at a text or at its tree complains of a place in that text. Code has no places, so
that lack of room is laid at the door of the first text, whichever text is to blame.
-/

set_option autoImplicit false

namespace ScriptHost

/-! ## Reading -/

/-- The places in a tree that is read from a text, and those of the errors in it, are places in the
text. -/
theorem read_within (source : String) (file : Nat) :
    (∀ {items}, read source file = .ok items →
        ∀ span ∈ Item.spansAll items, span.Within file source) ∧
      ∀ {errors}, read source file = .error errors →
        errors ≠ [] ∧ ∀ d ∈ errors, d.stage ≠ .compiler ∧ d.span.Within file source := by
  obtain ⟨hlexemes, herrors⟩ := lex_within source file
  unfold read
  cases hlex : lex source file with
  | error errors =>
    refine ⟨nofun, fun {found} h => ?_⟩
    cases h
    refine ⟨?_, fun d hd => ?_⟩
    · rintro rfl
      unfold lex at hlex
      dsimp only at hlex
      split at hlex
      · cases hlex
      · rename_i hsome
        cases hnil : (Scan.all file 0 source.toList {}).errors with
        | nil => simp [hnil] at hsome
        | cons d rest => simp [hnil] at hlex
    · obtain ⟨hstage, hwithin⟩ := herrors hlex d hd
      exact ⟨by rw [hstage]; decide, hwithin⟩
  | ok lexemes =>
    have hnonempty : lexemes ≠ [] := by
      obtain ⟨front, last, rfl, -⟩ := lex_ended hlex
      simp
    have hplaced : (∀ {items}, parse lexemes = .ok items →
        ∀ span ∈ Item.spansAll items, span.Within file source) ∧
          ∀ {errors}, parse lexemes = .error errors → ∀ d ∈ errors, d.span.Within file source :=
      parse_placed (fun ha hb => ha.merge hb) hnonempty (hlexemes hlex)
    refine ⟨hplaced.1, fun {errors} h => ?_⟩
    obtain ⟨hsome, hcomplains⟩ := parse_error h
    refine ⟨hsome, fun d hd => ⟨?_, hplaced.2 h d hd⟩⟩
    obtain ⟨e, span, rfl⟩ := hcomplains d hd
    exact nofun

/-- These are the trees of source texts, the first of which has the number `file`. -/
def ReadAs (file : Nat) (sources : List String) (texts : List (List Item)) : Prop :=
  List.Forall₂ (fun numbered items => read numbered.1 numbered.2 = .ok items)
    (sources.zipIdx file) texts

/-- The tree behind some others is that of the text behind as many others. -/
theorem ReadAs.behind {sources : List String} {front rest : List (List Item)} {items : List Item}
    (h : ReadAs 0 sources (front ++ items :: rest)) :
    ∃ source, sources[front.length]? = some source ∧ read source front.length = .ok items := by
  have hsame := h.length_eq
  rw [List.length_zipIdx, List.length_append, List.length_cons] at hsame
  have hsource : front.length < sources.length := by omega
  have htree : front.length < (front ++ items :: rest).length := by
    rw [List.length_append, List.length_cons]
    omega
  refine ⟨sources[front.length], List.getElem?_eq_getElem hsource, ?_⟩
  have hread := List.Forall₂.get h (by rwa [List.length_zipIdx]) htree
  simpa using hread

/-- What is wrong with the texts that are read is wrong with one of them. -/
theorem mem_readTexts_diagnostics {sources : List String} {found : ReadTexts} {file : Nat}
    (hcount : file + sources.length ≤ maxSourceTexts) {d : Diagnostic}
    (h : d ∈ (readTexts found file sources).diagnostics) :
    d ∈ found.diagnostics ∨ ∃ index source errors, sources[index]? = some source ∧
      read source (file + index) = .error errors ∧ d ∈ errors := by
  induction sources generalizing found file with
  | nil => exact .inl h
  | cons source rest ih =>
    rw [List.length_cons] at hcount
    rw [readTexts, if_pos (by omega)] at h
    obtain h | ⟨index, other, errors, hother, hread, hd⟩ := ih (by omega) h
    · unfold ReadTexts.add at h
      split at h
      · exact .inl h
      · rename_i errors hread
        rw [← Array.mem_toList_iff, Array.toList_appendList, List.mem_append] at h
        obtain h | h := h
        · exact .inl (Array.mem_toList_iff.mp h)
        · exact .inr ⟨0, source, errors, rfl, hread, h⟩
    · rw [Nat.add_assoc, Nat.add_comm 1] at hread
      exact .inr ⟨index + 1, other, errors, hother, hread, hd⟩

/-- Texts with nothing wrong have all been read. -/
theorem readAs_of_readTexts {sources : List String} {found : ReadTexts} {file : Nat}
    (hcount : file + sources.length ≤ maxSourceTexts)
    (hclean : (readTexts found file sources).diagnostics = #[]) :
    found.diagnostics = #[] ∧ ∃ texts, ReadAs file sources texts ∧
      (readTexts found file sources).texts.reverse = found.texts.reverse ++ texts := by
  induction sources generalizing found file with
  | nil => exact ⟨hclean, [], .nil, (List.append_nil _).symm⟩
  | cons source rest ih =>
    rw [List.length_cons] at hcount
    rw [readTexts, if_pos (by omega)] at hclean ⊢
    obtain ⟨hnone, texts, hread, htexts⟩ := ih (by omega) hclean
    unfold ReadTexts.add at hnone htexts ⊢
    cases hfirst : read source file with
    | ok items =>
      simp only [hfirst] at hnone htexts ⊢
      refine ⟨hnone, items :: texts, ?_, ?_⟩
      · rw [ReadAs, List.zipIdx_cons]
        exact .cons hfirst hread
      · rw [htexts, List.reverse_cons, List.append_assoc, List.singleton_append]
    | error errors =>
      simp only [hfirst] at hnone
      obtain ⟨hsome, -⟩ := (read_within source file).2 hfirst
      have hnil := congrArg Array.toList hnone
      rw [Array.toList_appendList, List.append_eq_nil_iff] at hnil
      exact absurd hnil.2 hsome

/-- Texts that can be read are read, and nothing is wrong with them. -/
theorem readTexts_of_readAs {sources : List String} {texts : List (List Item)}
    {found : ReadTexts} {file : Nat} (hcount : file + sources.length ≤ maxSourceTexts)
    (h : ReadAs file sources texts) :
    readTexts found file sources = { found with texts := texts.reverse ++ found.texts } := by
  induction sources generalizing texts found file with
  | nil =>
    cases h
    rfl
  | cons source rest ih =>
    rw [List.length_cons] at hcount
    rw [ReadAs, List.zipIdx_cons] at h
    cases h with
    | cons hfirst hrest =>
      rw [readTexts, if_pos (by omega), ih (by omega) hrest, ReadTexts.add, hfirst]
      simp only [List.reverse_cons, List.append_assoc, List.singleton_append]

/-! ## Text after text -/

/-- What has been said in the meantime. -/
def saidSince (before after : Array Diagnostic) : List Diagnostic :=
  after.toList.drop before.size

theorem SaidAt.saidSince {places : Span → Prop} {before after : Array Diagnostic}
    (h : SaidAt places before after) :
    after.toList = before.toList ++ saidSince before after ∧
      ∀ d ∈ saidSince before after, d.NamesAt places := by
  obtain ⟨said, hafter, hsaid⟩ := h
  have hsince : ScriptHost.saidSince before after = said := by
    rw [ScriptHost.saidSince, hafter, ← Array.length_toList, List.drop_left]
  rw [hsince]
  exact ⟨hafter, hsaid⟩

/-- Where each text adds to what is said, all that is said is said by then or about one text. -/
theorem said_by_text {τ : Type} {told : List τ → Array Diagnostic}
    (htold : ∀ front text, (told (front ++ [text])).toList =
      (told front).toList ++ saidSince (told front) (told (front ++ [text])))
    {texts : List τ} {d : Diagnostic} (h : d ∈ told texts) :
    d ∈ told [] ∨ ∃ front text rest, texts = front ++ text :: rest ∧
      d ∈ saidSince (told front) (told (front ++ [text])) := by
  induction texts using List.reverseRecOn with
  | nil => exact .inl h
  | append_singleton front text ih =>
    rw [← Array.mem_toList_iff, htold front text, List.mem_append, Array.mem_toList_iff] at h
    obtain h | h := h
    · obtain hnone | ⟨before, other, rest, rfl, hother⟩ := ih h
      · exact .inl hnone
      · refine .inr ⟨before, other, rest ++ [text], ?_, hother⟩
        rw [List.append_assoc, List.cons_append]
    · exact .inr ⟨front, text, [], rfl, h⟩

/-- What holds of no texts and not of all texts ceases to hold with one text. -/
theorem exists_text {τ : Type} {holds : List τ → Prop} (hnone : holds []) {texts : List τ}
    (hall : ¬ holds texts) :
    ∃ front text rest, texts = front ++ text :: rest ∧ holds front ∧
      ¬ holds (front ++ [text]) := by
  induction texts using List.reverseRecOn with
  | nil => exact absurd hnone hall
  | append_singleton front text ih =>
    by_cases hfront : holds front
    · exact ⟨front, text, [], rfl, hfront, hall⟩
    · obtain ⟨before, other, rest, rfl, hbefore, hother⟩ := ih hfront
      refine ⟨before, other, rest ++ [text], ?_, hbefore, hother⟩
      rw [List.append_assoc, List.cons_append]

/-- The walk through the bodies of the first ones of some texts. -/
def Scope.walked (env : Env) (texts front : List (List Item)) : Scope.Progress :=
  let declared := Declarations.ofTexts env.program texts
  front.foldl (fun p items => Scope.Progress.addItems { env, declared } p items)
    { top := { diagnostics := declared.diagnostics } }

theorem resolve_diagnostics (texts : List (List Item)) (env : Env) :
    (resolve texts env).2 = (Scope.walked env texts texts).top.diagnostics.toList :=
  rfl

/-- The first pass says things about a text at the places in its tree. -/
theorem said_ofTexts (program : Program) (front : List (List Item)) (items : List Item) :
    SaidAt (· ∈ Item.spansAll items) (Declarations.ofTexts program front).diagnostics
      (Declarations.ofTexts program (front ++ [items])).diagnostics := by
  unfold Declarations.ofTexts
  rw [List.foldl_append]
  exact Declarations.said_addItems (fun _ hspan => hspan) [] _

/-- So does the second pass. -/
theorem said_walked (env : Env) (texts front : List (List Item)) (items : List Item) :
    SaidAt (· ∈ Item.spansAll items) (Scope.walked env texts front).top.diagnostics
      (Scope.walked env texts (front ++ [items])).top.diagnostics := by
  have hclosed : (Scope.walked env texts front).top.Nested 0 := by
    unfold Scope.walked
    rw [Scope.Progress.foldl_addItems]
    exact Scope.Progress.nested_addItems _ _ ⟨rfl, Nat.zero_le _⟩
  unfold Scope.walked at hclosed ⊢
  rw [List.foldl_append]
  exact Scope.Progress.said_addItems (fun _ hspan => hspan) _ hclosed

/-! ## Code -/

/-- There is room for the functions of the first ones of some texts. -/
def Resolved.Unit.FunctionsFit (u : Resolved.Unit) (front : List (List Item)) : Prop :=
  ∀ f ∈ u.functions.toList.take (front.flatMap Item.routinesAll).length, Code.Fits f.body

/-- There is room for all functions, and for the statements of the first ones of some texts. -/
def Resolved.Unit.StatementsFit (u : Resolved.Unit) (front : List (List Item)) : Prop :=
  (∀ f ∈ u.functions.toList, Code.Fits f.body) ∧
    Code.Fits (u.topLevel.take (front.flatMap Item.statementsAll).length)

/-- There are no more functions than routines. -/
theorem functions_size_le (texts : List (List Item)) (env : Env) :
    (resolve texts env).1.functions.toList.length ≤ (Item.routinesAll texts.flatten).length := by
  have hcount := (Scope.Progress.Scoped.ofTexts texts
    { env, declared := Declarations.ofTexts env.program texts }
    (Declarations.ofTexts env.program texts).diagnostics).count
  rw [Array.length_toList, resolve, Array.size_zipWith]
  exact Nat.le_trans (Nat.min_le_right _ _) (Nat.le_of_eq hcount)

/-- In a unit without errors that cannot be made into code, there is a first text for which there is
no room. -/
theorem exists_unfit {texts : List (List Item)} {env : Env} {base : Nat} {e : CodeError}
    (hclean : (resolve texts env).2.any Diagnostic.isError = false)
    (h : (resolve texts env).1.compile base = .error e) :
    ∃ front items rest, texts = front ++ items :: rest ∧
      (((resolve texts env).1.FunctionsFit front ∧
          ¬ (resolve texts env).1.FunctionsFit (front ++ [items])) ∨
        ((resolve texts env).1.StatementsFit front ∧
          ¬ (resolve texts env).1.StatementsFit (front ++ [items]))) := by
  obtain ⟨hroutines, places, htop⟩ := resolve_scoped hclean
  have hunfit : ¬ ((∀ f ∈ (resolve texts env).1.functions, Code.Fits f.body) ∧
      Code.Fits (resolve texts env).1.topLevel) := by
    rw [← Code.compile_isOk _ base, h]
    rintro ⟨_, hok⟩
    cases hok
  by_cases hfunctions : ∀ f ∈ (resolve texts env).1.functions.toList, Code.Fits f.body
  · have hstart : (resolve texts env).1.StatementsFit [] := ⟨hfunctions, Code.fits_nil⟩
    have hend : ¬ (resolve texts env).1.StatementsFit texts := by
      intro hfit
      refine hunfit ⟨fun f hf => hfunctions f (Array.mem_toList_iff.mpr hf), ?_⟩
      have hlength := htop.same_length
      rw [Item.statementsAll_flatten] at hlength
      have hall := hfit.2
      rwa [← hlength, List.take_length] at hall
    obtain ⟨front, items, rest, hsplit, hfront, hitems⟩ := exists_text hstart hend
    exact ⟨front, items, rest, hsplit, .inr ⟨hfront, hitems⟩⟩
  · have hstart : (resolve texts env).1.FunctionsFit [] := nofun
    have hend : ¬ (resolve texts env).1.FunctionsFit texts := by
      intro hfit
      refine hfunctions fun f hf => hfit f ?_
      have hsize := functions_size_le texts env
      rwa [List.take_of_length_le]
      rwa [Item.routinesAll_flatten] at hsize
    obtain ⟨front, items, rest, hsplit, hfront, hitems⟩ := exists_text hstart hend
    exact ⟨front, items, rest, hsplit, .inl ⟨hfront, hitems⟩⟩

/-! ## Blame -/

/-- The source text with a number is to blame for a diagnostic. -/
inductive Blamed (sources : List String) (env : Env) (d : Diagnostic) : Nat → Prop
  /-- The text cannot be read, and this is an error in it. -/
  | reading {file : Nat} {source : String} {errors : List Diagnostic}
      (hsource : sources[file]? = some source) (hread : read source file = .error errors)
      (herror : d ∈ errors) : Blamed sources env d file
  /-- It is said between the text before and the text behind, as what they declare is noted. -/
  | declaring {front rest : List (List Item)} {items : List Item}
      (hread : ReadAs 0 sources (front ++ items :: rest))
      (hsaid : d ∈ saidSince (Declarations.ofTexts env.program front).diagnostics
        (Declarations.ofTexts env.program (front ++ [items])).diagnostics) :
      Blamed sources env d front.length
  /-- It is said between the text before and the text behind, as their names are looked up. -/
  | resolving {front rest : List (List Item)} {items : List Item}
      (hread : ReadAs 0 sources (front ++ items :: rest))
      (hsaid : d ∈ saidSince (Scope.walked env (front ++ items :: rest) front).top.diagnostics
        (Scope.walked env (front ++ items :: rest) (front ++ [items])).top.diagnostics) :
      Blamed sources env d front.length
  /-- There is room for what the texts before have in them, be it functions or statements, and no
  longer with what this text has in it. -/
  | coding {front rest : List (List Item)} {items : List Item} {e : CodeError}
      (hread : ReadAs 0 sources (front ++ items :: rest))
      (hcode : (resolve (front ++ items :: rest) env).1.compile env.program.bindings.size =
        .error e)
      (hroom : ((resolve (front ++ items :: rest) env).1.FunctionsFit front ∧
          ¬ (resolve (front ++ items :: rest) env).1.FunctionsFit (front ++ [items])) ∨
        ((resolve (front ++ items :: rest) env).1.StatementsFit front ∧
          ¬ (resolve (front ++ items :: rest) env).1.StatementsFit (front ++ [items])))
      (hd : d = e.diagnostic) : Blamed sources env d front.length

variable {sources : List String} {env : Env} {d : Diagnostic}

/-- For every diagnostic of a build there is a text to blame. -/
theorem exists_blamed (hcount : sources.length ≤ maxSourceTexts) (h : d ∈ (build sources env).2) :
    ∃ file, Blamed sources env d file := by
  rw [build] at h
  dsimp only at h
  rw [← Nat.zero_add sources.length] at hcount
  split at h
  case isFalse =>
    rw [Array.mem_toList_iff] at h
    obtain h | ⟨file, source, errors, hsource, hread, hd⟩ := mem_readTexts_diagnostics hcount h
    · exact absurd h (Array.not_mem_empty d)
    · rw [Nat.zero_add] at hread
      exact ⟨file, .reading hsource hread hd⟩
  case isTrue hempty =>
    obtain ⟨-, texts, hread, htexts⟩ :=
      readAs_of_readTexts hcount (Array.isEmpty_iff.mp hempty)
    rw [List.reverse_nil, List.nil_append] at htexts
    rw [htexts] at h
    have hnames (hd : d ∈ (resolve texts env).2) : ∃ file, Blamed sources env d file := by
      rw [resolve_diagnostics, Array.mem_toList_iff] at hd
      obtain hd | ⟨front, items, rest, rfl, hsaid⟩ :=
        @said_by_text _ (fun front => (Scope.walked env texts front).top.diagnostics)
          (fun front items => (said_walked env texts front items).saidSince.1) _ _ hd
      · obtain hsaid | ⟨front, items, rest, rfl, hsaid⟩ :=
          @said_by_text _ (fun front => (Declarations.ofTexts env.program front).diagnostics)
            (fun front items => (said_ofTexts env.program front items).saidSince.1) _ _ hd
        · exact absurd hsaid (Array.not_mem_empty d)
        · exact ⟨_, .declaring hread hsaid⟩
      · exact ⟨_, .resolving hread hsaid⟩
    split at h
    case isTrue => exact hnames h
    case isFalse hclean =>
      split at h
      · exact hnames h
      · rename_i e hcode
        rw [List.mem_append, List.mem_singleton] at h
        obtain h | h := h
        · exact hnames h
        · obtain ⟨front, items, rest, rfl, hroom⟩ :=
            exists_unfit (Bool.not_eq_true _ ▸ hclean) hcode
          exact ⟨_, .coding hread hcode hroom h⟩

/-- What is said about names at the places in a tree is said of places in its text. -/
theorem ReadAs.said_within {before after : Array Diagnostic} {front rest : List (List Item)}
    {items : List Item} (hread : ReadAs 0 sources (front ++ items :: rest))
    (hsaid : SaidAt (· ∈ Item.spansAll items) before after) (hd : d ∈ saidSince before after) :
    ∃ source, sources[front.length]? = some source ∧
      d.stage ≠ .compiler ∧ d.span.Within front.length source := by
  obtain ⟨source, hsource, hitems⟩ := hread.behind
  obtain ⟨hstage, hspan⟩ := hsaid.saidSince.2 d hd
  refine ⟨source, hsource, ?_, (read_within source _).1 hitems _ hspan⟩
  rw [hstage]
  decide

/-- The place in a diagnostic is in the text to blame, unless it is a lack of room in the code,
which has no place. -/
theorem Blamed.place {file : Nat} (h : Blamed sources env d file) :
    ∃ source, sources[file]? = some source ∧
      ((d.stage ≠ .compiler ∧ d.span.Within file source) ∨
        (d.stage = .compiler ∧ d.span = .nowhere)) := by
  cases h with
  | reading hsource hread herror =>
    exact ⟨_, hsource, .inl (((read_within _ _).2 hread).2 d herror)⟩
  | declaring hread hsaid =>
    obtain ⟨source, hsource, hwithin⟩ := hread.said_within (said_ofTexts _ _ _) hsaid
    exact ⟨source, hsource, .inl hwithin⟩
  | resolving hread hsaid =>
    obtain ⟨source, hsource, hwithin⟩ := hread.said_within (said_walked _ _ _ _) hsaid
    exact ⟨source, hsource, .inl hwithin⟩
  | coding hread hcode hroom hd =>
    obtain ⟨source, hsource, -⟩ := hread.behind
    exact ⟨source, hsource, .inr ⟨hd ▸ rfl, hd ▸ rfl⟩⟩

end ScriptHost

/-! ## Where readers of diagnostics are sent

A diagnostic reaches its reader as a line with the origin of a source text and a position in it. A
reader who follows it finds the text to blame, whatever is wrong, but for lack of room in the code.
Then it is the first text that the line names. -/

namespace ScriptHost

/-- The place is in the source text with a number, and both of its ends stand between characters. -/
def Span.PointsInto (span : Span) (sources : List String) (file : Nat) : Prop :=
  ∃ source, sources[file]? = some source ∧ span.Within file source ∧
    span.stop ≤ source.utf8ByteSize

/-- The lack of a place is a place in the first text only. -/
theorem Span.nowhere_pointsInto {sources : List String} {file : Nat} (h : file < sources.length) :
    Span.nowhere.PointsInto sources file ↔ file = 0 := by
  constructor
  · rintro ⟨source, -, hwithin, -⟩
    exact hwithin.file.symm
  · rintro rfl
    refine ⟨sources[0], List.getElem?_eq_getElem h, ⟨rfl, Nat.le_refl _, ?_, ?_⟩, Nat.zero_le _⟩ <;>
      exact String.Pos.Raw.isValid_zero

/-- The line of a diagnostic with a place in one of the texts names that text. -/
theorem Engine.diagnosticLine_eq {unit : SourceUnit} {file : Nat} {d : Diagnostic}
    (hfile : d.span.file = file) (h : file < unit.texts.length) :
    ∃ shown, unit.files[file]? = some shown ∧
      diagnosticLine unit d = d.line shown.origin shown.text := by
  rw [SourceUnit.texts, List.length_map] at h
  refine ⟨unit.files[file], List.getElem?_eq_getElem h, ?_⟩
  rw [diagnosticLine, hfile, SourceUnit.origin, SourceUnit.text, List.getElem?_eq_getElem h]
  rfl

/-- For each diagnostic of a build there is a source text to blame. The diagnostic points into it,
unless it is a lack of room in the code for another text than the first one. Its line names the text
to blame, but for a lack of room the first one. -/
theorem diagnostics_point_unless_coding {sources : List String}
    (hcount : sources.length ≤ maxSourceTexts) {env : Env} {d : Diagnostic}
    (h : d ∈ (build sources env).2) :
    (∃ file, Blamed sources env d file) ∧
      ∀ file, Blamed sources env d file →
        (d.span.PointsInto sources file ↔ (d.stage = .compiler → file = 0)) ∧
        ∀ unit : SourceUnit, unit.texts = sources →
          ∃ shown, unit.files[if d.stage = .compiler then 0 else file]? = some shown ∧
            Engine.diagnosticLine unit d = d.line shown.origin shown.text := by
  refine ⟨exists_blamed hcount h, fun file hblamed => ?_⟩
  obtain ⟨source, hsource, ⟨hstage, hwithin⟩ | ⟨hstage, hnowhere⟩⟩ := hblamed.place
  · have hpoints : d.span.PointsInto sources file :=
      ⟨source, hsource, hwithin, hwithin.stop_le⟩
    refine ⟨iff_of_true hpoints fun hcompiler => absurd hcompiler hstage, fun unit htexts => ?_⟩
    rw [if_neg hstage]
    exact Engine.diagnosticLine_eq hwithin.file
      (htexts ▸ (List.getElem?_eq_some_iff.mp hsource).1)
  · have hfile : file < sources.length := (List.getElem?_eq_some_iff.mp hsource).1
    refine ⟨?_, fun unit htexts => ?_⟩
    · rw [hnowhere, Span.nowhere_pointsInto hfile]
      exact ⟨fun hzero _ => hzero, fun hzero => hzero hstage⟩
    · rw [if_pos hstage]
      exact Engine.diagnosticLine_eq (congrArg Span.file hnowhere)
        (htexts ▸ Nat.lt_of_le_of_lt (Nat.zero_le _) hfile)

/-- A call of a method with 256 arguments. -/
def crowdedCall : List Char :=
  "null.m(".toList ++ (List.replicate 255 "1, ".toList).flatten ++ "1);".toList

/-- A program without anything in it, and no modules. -/
def bareEnv : Env where
  program := {}
  lookup := fun _ _ => .notAModule
  warningLevel := 2

/-- Whether two texts have good names, functions that do nothing and no statements in the first one,
and too many arguments for the code. -/
def tooCrowded (first second : List Item) : Bool :=
  let (unit, diagnostics) := resolve [first, second] bareEnv
  diagnostics.isEmpty && unit.functions.toList.all (·.body.isEmpty) &&
    (Item.statementsAll first).isEmpty &&
    match unit.compile 0 with
    | .error .tooManyArguments => true
    | _ => false

theorem read_ofList (cs : List Char) (file : Nat) :
    read (String.ofList cs) file =
      (let found := Scan.all file 0 cs {}
       if found.errors.isEmpty then .ok found.lexemes.reverse
       else .error found.errors.reverse) >>= parse := by
  rw [read, lex, String.toList_ofList]

set_option maxRecDepth 20000 in
theorem crowdedCall_read :
    ∃ first second, read "fn f() { }" 0 = .ok first ∧
      read (String.ofList crowdedCall) 1 = .ok second ∧ tooCrowded first second = true := by
  have hchecked : ((read "fn f() { }" 0).bind fun first =>
      (read (String.ofList crowdedCall) 1).map (tooCrowded first)).toOption = some true := by
    rw [read_ofList crowdedCall 1]
    decide +kernel
  generalize read (String.ofList crowdedCall) 1 = reading at hchecked ⊢
  cases hfirst : read "fn f() { }" 0 with
  | error errors =>
    rw [hfirst] at hchecked
    cases hchecked
  | ok first =>
    rw [hfirst] at hchecked
    cases reading with
    | error errors => cases hchecked
    | ok second => exact ⟨first, second, rfl, rfl, Option.some.inj hchecked⟩

/-- Such a call in the second of two texts is complained of, but at a place in the first one. -/
theorem crowded_call_is_misplaced :
    let sources := ["fn f() { }", String.ofList crowdedCall]
    let d := CodeError.tooManyArguments.diagnostic
    d ∈ (build sources bareEnv).2 ∧ Blamed sources bareEnv d 1 ∧ ¬ d.span.PointsInto sources 1 := by
  intro sources d
  obtain ⟨first, second, hfirst, hsecond, hcrowded⟩ := crowdedCall_read
  have hread : ReadAs 0 sources [first, second] := .cons hfirst (.cons hsecond .nil)
  simp only [tooCrowded, Bool.and_eq_true, List.isEmpty_iff, List.all_eq_true] at hcrowded
  obtain ⟨⟨⟨hclean, hempty⟩, hnone⟩, hrefused⟩ := hcrowded
  have hcode : (resolve [first, second] bareEnv).1.compile 0 = .error .tooManyArguments := by
    generalize (resolve [first, second] bareEnv).1.compile 0 = made at hrefused ⊢
    split at hrefused
    · rfl
    · cases hrefused
  have hbuild : d ∈ (build sources bareEnv).2 := by
    have hbase : bareEnv.program.bindings.size = 0 := rfl
    rw [build, readTexts_of_readAs (by decide) hread]
    simp [hclean, hbase, hcode, d]
  have hfunctions : ∀ f ∈ (resolve [first, second] bareEnv).1.functions.toList,
      Code.Fits f.body := fun f hf => hempty f hf ▸ Code.fits_nil
  have hblamed : Blamed sources bareEnv d 1 := by
    obtain ⟨front, items, rest, hsplit, hroom⟩ := exists_unfit (by rw [hclean]; rfl) hcode
    match front, hsplit with
    | [], hsplit =>
      obtain ⟨rfl, -⟩ : first = items ∧ [second] = rest := by simpa using hsplit
      obtain ⟨-, hroom⟩ | ⟨-, hroom⟩ := hroom
      · exact absurd (fun f hf => hfunctions f (List.mem_of_mem_take hf)) hroom
      · refine absurd ⟨hfunctions, ?_⟩ hroom
        simpa [hnone] using Code.fits_nil
    | [front], hsplit =>
      obtain ⟨rfl, rfl, rfl⟩ : first = front ∧ second = items ∧ [] = rest := by
        simpa using hsplit
      exact .coding hread hcode hroom rfl
    | _ :: _ :: front, hsplit => simp at hsplit
  refine ⟨hbuild, hblamed, fun hpoints => ?_⟩
  have hplace := (diagnostics_point_unless_coding (by decide) hbuild).2 1 hblamed
  exact absurd (hplace.1.mp hpoints rfl) Nat.one_ne_zero

end ScriptHost
