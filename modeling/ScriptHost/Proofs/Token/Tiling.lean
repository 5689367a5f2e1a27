import Mathlib.Data.List.Chain
import Mathlib.Data.List.TakeWhile
import ScriptHost.Proofs.Token.Join
import ScriptHost.Proofs.Token.Places
/-!
# Lexemes tile the text

The lexemes of a text, with the blanks and the comments in between, make up the whole text, each
byte of it once: `lex_tiles`. The text of a lexeme is all that its token depends on, for read alone
it is that token again.

The induction is on the text that is left. One step takes a token off its front, or a blank or a
comment, and says which characters it has taken.
-/

set_option autoImplicit false

namespace ScriptHost

namespace Scan

/-! ## What one step takes -/

/-- The reader takes its piece off the front of the text, and finds the same piece where there is
nothing behind it. It need not if it finds something wrong. -/
def Cuts (read : List Char → Piece) (cs : List Char) : Prop :=
  (read cs).errors = [] →
    ∃ taken, cs = taken ++ (read cs).rest ∧ read taken = { read cs with rest := [] }

theorem string_cuts (start offset : Nat) (cs text : List Char)
    (errors : List (LexError × Nat × Nat)) :
    Cuts (fun cs => string start offset cs text errors) cs := by
  intro h
  dsimp only at h ⊢
  fun_induction string start offset cs text errors with
  | case1 => simp [string.unclosed] at h
  | case2 offset text errors cs => exact ⟨['"'], rfl, by rw [string]⟩
  | case3 => simp [string.unclosed] at h
  | case4 => simp [string.unclosed] at h
  | case5 offset c cs text errors meant hmeant ih =>
    obtain ⟨taken, hcs, htaken⟩ := ih h
    refine ⟨'\\' :: c :: taken, ?_, ?_⟩
    · rw [List.cons_append, List.cons_append, ← hcs]
    · rw [string, hmeant]
      exact htaken
  | case6 offset c cs text errors hunknown ih =>
    obtain ⟨taken, hcs, htaken⟩ := ih h
    refine ⟨'\\' :: c :: taken, ?_, ?_⟩
    · rw [List.cons_append, List.cons_append, ← hcs]
    · rw [string, hunknown]
      exact htaken
  | case7 offset c cs text errors hquote hbreak hlast hescape ih =>
    have hplain : c ≠ '\\' := fun hc => by
      cases cs with
      | nil => exact hlast hc rfl
      | cons d ds => exact hescape d ds hc rfl
    obtain ⟨taken, hcs, htaken⟩ := ih h
    refine ⟨c :: taken, ?_, ?_⟩
    · rw [List.cons_append, ← hcs]
    · rw [string]
      · exact htaken
      · exact hquote
      · exact hbreak
      · exact fun hc _ => hplain hc
      · exact fun _ _ hc _ => hplain hc

/-- Characters of a kind, and nothing behind them. -/
theorem takeWhile_takeWhile_nil (p : Char → Bool) (cs : List Char) :
    (cs.takeWhile p).takeWhile p = cs.takeWhile p ∧ (cs.takeWhile p).dropWhile p = [] := by
  have hall : ∀ c ∈ cs.takeWhile p, p c = true := fun c hc => List.mem_takeWhile_imp hc
  exact ⟨List.takeWhile_eq_self_iff.mpr hall, List.dropWhile_eq_nil_iff.mpr hall⟩

/-- Characters of a kind, and one behind them that is not. -/
theorem takeWhile_append_cons (p : Char → Bool) {c : Char} (hc : p c = false) (front cs : List Char)
    (hfront : ∀ d ∈ front, p d = true) :
    (front ++ c :: cs).takeWhile p = front ∧ (front ++ c :: cs).dropWhile p = c :: cs := by
  have hnot : ¬p c = true := by simp [hc]
  rw [List.takeWhile_append_of_pos hfront, List.dropWhile_append_of_pos hfront,
    List.takeWhile_cons_of_neg hnot, List.dropWhile_cons_of_neg hnot, List.append_nil]
  exact ⟨rfl, rfl⟩

theorem integer_nil (start : Nat) (digits rest : List Char) :
    integer start digits [] = { integer start digits rest with rest := [] } := by
  unfold integer
  dsimp only
  split <;> rfl

theorem word_cuts (start : Nat) (cs : List Char) : Cuts (word start) cs := by
  intro _
  obtain ⟨htake, hdrop⟩ := takeWhile_takeWhile_nil isWordChar cs
  refine ⟨cs.takeWhile isWordChar, List.takeWhile_append_dropWhile.symm, ?_⟩
  unfold word
  rw [htake, hdrop]
  rfl

theorem number_cuts (start : Nat) (cs : List Char) : Cuts (number start) cs := by
  intro _
  obtain ⟨htake, hdrop⟩ := takeWhile_takeWhile_nil isDigit cs
  have hwhole : cs = cs.takeWhile isDigit ++ cs.dropWhile isDigit :=
    List.takeWhile_append_dropWhile.symm
  -- The digits alone, without what is behind them.
  have halone : ∀ rest, number start (cs.takeWhile isDigit) =
      { integer start (cs.takeWhile isDigit) rest with rest := [] } := by
    intro rest
    rw [number_of_no_point (by simp [hdrop]), htake, hdrop]
    exact integer_nil ..
  by_cases hpoint : ∃ afterPoint, cs.dropWhile isDigit = '.' :: afterPoint
  · obtain ⟨afterPoint, hpoint⟩ := hpoint
    rw [number_of_point hpoint]
    split
    · refine ⟨cs.takeWhile isDigit, ?_, halone _⟩
      rw [integer_rest, ← hpoint]
      exact hwhole
    · rename_i hfraction
      obtain ⟨hfractionTake, hfractionDrop⟩ := takeWhile_takeWhile_nil isDigit afterPoint
      have htaken : cs = (cs.takeWhile isDigit ++ '.' :: afterPoint.takeWhile isDigit) ++
          afterPoint.dropWhile isDigit := by
        rw [List.append_assoc, List.cons_append, List.takeWhile_append_dropWhile, ← hpoint]
        exact hwhole
      obtain ⟨htakenWhole, htakenPoint⟩ :=
        takeWhile_append_cons isDigit (by decide : isDigit '.' = false) (cs.takeWhile isDigit)
          (afterPoint.takeWhile isDigit) fun c hc => List.mem_takeWhile_imp hc
      refine ⟨_, htaken, ?_⟩
      rw [number_of_point htakenPoint, htakenWhole, hfractionTake, hfractionDrop, if_neg hfraction]
      rfl
  · have hnone := not_exists.mp hpoint
    rw [number_of_no_point hnone]
    refine ⟨cs.takeWhile isDigit, ?_, halone _⟩
    rw [integer_rest]
    exact hwhole

theorem doubled_cuts (c : Char) (token : Token) (error : LexError) (start : Nat)
    (cs : List Char) : Cuts (doubled c token error start) cs := by
  intro h
  cases cs with
  | nil => cases h
  | cons d cs =>
    unfold doubled at h ⊢
    dsimp only at h ⊢
    by_cases hd : d = c
    · rw [if_pos hd]
      exact ⟨[d], rfl, by simp [hd, Piece.good]⟩
    · rw [if_neg hd] at h
      cases h

theorem lineComment_cuts (offset : Nat) (cs : List Char) : Cuts (lineComment offset) cs := by
  intro h
  induction cs generalizing offset with
  | nil => exact ⟨[], rfl, rfl⟩
  | cons c cs ih =>
    by_cases hc : c = '\n'
    · refine ⟨[], ?_, ?_⟩
      · rw [lineComment, if_pos hc]
        rfl
      · rw [lineComment, lineComment, if_pos hc]
        rfl
    · rw [lineComment, if_neg hc] at h ⊢
      obtain ⟨taken, hcs, htaken⟩ := ih _ h
      refine ⟨c :: taken, ?_, ?_⟩
      · rw [List.cons_append, ← hcs]
      · rw [lineComment, if_neg hc]
        exact htaken

theorem blockComment_cuts (start offset : Nat) (cs : List Char) :
    Cuts (blockComment start offset) cs := by
  intro h
  fun_induction blockComment start offset cs with
  | case1 => cases h
  | case2 offset cs => exact ⟨['*', '/'], rfl, rfl⟩
  | case3 offset c cs hclose ih =>
    obtain ⟨taken, hcs, htaken⟩ := ih h
    refine ⟨c :: taken, ?_, ?_⟩
    · rw [List.cons_append, ← hcs]
    · rw [blockComment]
      · exact htaken
      · rintro rest hstar rfl
        exact hclose (rest ++ (blockComment start (offset + c.utf8Size) cs).rest) hstar hcs

/-- A reader that takes the first character takes it together with what it takes behind it. -/
theorem Cuts.behind {read : List Char → Piece} {c : Char} {cs : List Char}
    (h : Cuts read (c :: cs)) (hshorter : (read (c :: cs)).rest.length < (c :: cs).length) :
    Cuts (fun cs => read (c :: cs)) cs := by
  intro herrors
  obtain ⟨taken, hcs, htaken⟩ := h herrors
  cases taken with
  | nil =>
    rw [List.nil_append] at hcs
    exact absurd (congrArg List.length hcs) (Nat.ne_of_gt hshorter)
  | cons d taken =>
    obtain ⟨rfl, htail⟩ := List.cons.inj hcs
    exact ⟨taken, htail, htaken⟩

/-- A reader that goes no further than its character cuts nothing off the rest. -/
theorem Cuts.nothing {read : List Char → Piece} {cs : List Char} (hrest : (read cs).rest = cs)
    (hsame : read [] = { read cs with rest := [] }) : Cuts read cs :=
  fun _ => ⟨[], hrest.symm, hsame⟩

theorem equal_cuts (start : Nat) (alone withEq : Token) (cs : List Char) :
    Cuts (fun cs => if cs.head? == some '=' then .good withEq (start + 2) cs.tail
      else .good alone (start + 1) cs) cs := by
  intro _
  by_cases heq : cs.head? = some '='
  · obtain ⟨rest, rfl⟩ := List.head?_eq_some_iff.mp heq
    exact ⟨['='], rfl, rfl⟩
  · simp only [beq_iff_eq, heq, if_false]
    exact ⟨[], rfl, rfl⟩

/-- A slash opens a comment of either kind, or is an operator. -/
theorem slash_cuts (start : Nat) (cs : List Char) : Cuts (next start '/') cs := by
  cases cs with
  | nil => exact .nothing rfl rfl
  | cons d cs =>
    by_cases hline : d = '/'
    · subst hline
      intro h
      obtain ⟨taken, hcs, htaken⟩ := lineComment_cuts (start + 2) cs h
      exact ⟨'/' :: taken, congrArg ('/' :: ·) hcs, htaken⟩
    by_cases hblock : d = '*'
    · subst hblock
      intro h
      obtain ⟨taken, hcs, htaken⟩ := blockComment_cuts start (start + 2) cs h
      exact ⟨'*' :: taken, congrArg ('*' :: ·) hcs, htaken⟩
    have hgood : next start '/' (d :: cs) = .good .slash (start + 1) (d :: cs) := by
      unfold next
      simp [hline, hblock, isBlank, isDigit, isWordStart, mark?]
    refine .nothing ?_ ?_
    · rw [hgood]
      rfl
    · rw [hgood]
      rfl

/-- What one step reads, in front of any text and wherever it starts, is read of these characters
alone. -/
theorem next_cuts (start : Nat) (c : Char) (cs : List Char) : Cuts (next start c) cs := by
  by_cases hslash : c = '/'
  · subst hslash
    exact slash_cuts start cs
  have hif {p : Prop} [Decidable p] {a b : List Char → Piece} (ha : p → Cuts a cs)
      (hb : Cuts b cs) : Cuts (fun cs => if p then a cs else b cs) cs := by
    by_cases hp : p
    · simpa only [if_pos hp] using ha hp
    · simpa only [if_neg hp] using hb
  have hword (h : isWordStart c = true) : Cuts (fun cs => word start (c :: cs)) cs :=
    (word_cuts start (c :: cs)).behind (dropWhile_length_lt isWordChar c cs (by simp [isWordChar, h]))
  unfold next
  simp only [hslash, decide_false, Bool.false_and, Bool.false_eq_true, if_false]
  refine hif (fun _ => .nothing rfl rfl) ?_
  refine hif (fun _ => doubled_cuts _ _ _ _ _) (hif (fun _ => doubled_cuts _ _ _ _ _) ?_)
  refine hif (fun _ => string_cuts _ _ _ _ _) ?_
  refine hif (fun hdigit => (number_cuts start (c :: cs)).behind ?_) (hif hword ?_)
  · exact number_rest_length start c cs hdigit
  split
  · exact .nothing rfl rfl
  · exact equal_cuts _ _ _ _
  · intro h
    cases h

/-! ## What is passed over -/

/-- Text that is no part of a token, in front of more text: blanks, block comments that are closed,
and line comments as far as the next line break or the end of the text. -/
inductive Skipped : List Char → List Char → Prop
  | nothing {behind : List Char} : Skipped [] behind
  | blank {c : Char} {gap behind : List Char} (hc : isBlank c = true) (h : Skipped gap behind) :
    Skipped (c :: gap) behind
  | block {inner gap behind : List Char} (hopen : ¬['*', '/'] <:+: inner)
    (h : Skipped gap behind) : Skipped ('/' :: '*' :: (inner ++ '*' :: '/' :: gap)) behind
  | line {inner gap behind : List Char} (hline : '\n' ∉ inner)
    (hend : ∀ c ∈ (gap ++ behind).head?, c = '\n') (h : Skipped gap behind) :
    Skipped ('/' :: '/' :: (inner ++ gap)) behind

/-- These characters are passed over in front of `rest`. -/
def Passes (taken rest : List Char) : Prop :=
  ∀ {gap behind : List Char}, rest = gap ++ behind → Skipped gap behind →
    Skipped (taken ++ gap) behind

theorem lineComment_takes (offset : Nat) (cs : List Char) :
    ∃ inner, cs = inner ++ (lineComment offset cs).rest ∧ '\n' ∉ inner ∧
      ∀ c ∈ (lineComment offset cs).rest.head?, c = '\n' := by
  induction cs generalizing offset with
  | nil => exact ⟨[], rfl, by simp, by simp [lineComment, Piece.skip]⟩
  | cons c cs ih =>
    rw [lineComment]
    split
    · rename_i hc
      exact ⟨[], rfl, by simp, by simpa [Piece.skip] using hc⟩
    · rename_i hc
      obtain ⟨inner, hcs, hinner, hend⟩ := ih (offset + c.utf8Size)
      refine ⟨c :: inner, by rw [List.cons_append, ← hcs], ?_, hend⟩
      exact fun hmem => (List.mem_cons.mp hmem).elim (fun h => hc h.symm) hinner

theorem blockComment_takes (start offset : Nat) (cs : List Char)
    (h : (blockComment start offset cs).errors = []) :
    ∃ inner, cs = inner ++ '*' :: '/' :: (blockComment start offset cs).rest ∧
      ¬['*', '/'] <:+: inner := by
  fun_induction blockComment start offset cs with
  | case1 => cases h
  | case2 => exact ⟨[], rfl, by simp⟩
  | case3 offset c cs hclose ih =>
    obtain ⟨inner, hcs, hinner⟩ := ih h
    refine ⟨c :: inner, by rw [List.cons_append, ← hcs], fun hinfix => ?_⟩
    obtain hprefix | hinfix := List.infix_cons_iff.mp hinfix
    · obtain ⟨behind, hbehind⟩ := hprefix
      obtain ⟨hstar, htail⟩ := List.cons.inj hbehind
      rw [← htail] at hcs
      exact hclose _ hstar.symm hcs
    · exact hinner hinfix

/-- A token was found, or something wrong. -/
def Piece.Tells (p : Piece) : Prop :=
  p.token = none → p.errors ≠ []

theorem string_tells (start offset : Nat) (cs text : List Char)
    (errors : List (LexError × Nat × Nat)) : (string start offset cs text errors).Tells := by
  fun_induction string start offset cs text errors with
  | case1 | case2 | case3 | case4 => exact fun h => by cases h
  | case5 | case6 | case7 => assumption

theorem integer_tells (start : Nat) (digits rest : List Char) :
    (integer start digits rest).Tells := by
  unfold integer
  dsimp only
  split
  · exact fun h => by cases h
  · exact fun _ => List.cons_ne_nil _ _

theorem number_tells (start : Nat) (cs : List Char) : (number start cs).Tells := by
  unfold number
  dsimp only
  split
  · split
    · exact integer_tells _ _ _
    · exact fun h => by cases h
  · exact integer_tells _ _ _

theorem doubled_tells (c : Char) (token : Token) (error : LexError) (start : Nat)
    (cs : List Char) : (doubled c token error start cs).Tells := by
  unfold doubled
  split
  · exact fun _ => List.cons_ne_nil _ _
  · split
    · exact fun h => by cases h
    · exact fun _ => List.cons_ne_nil _ _

/-- Where one step finds neither a token nor anything wrong, it passes over what it takes. -/
theorem next_passes (start : Nat) (c : Char) (cs : List Char)
    (htoken : (next start c cs).token = none) (herrors : (next start c cs).errors = []) :
    ∃ taken, c :: cs = taken ++ (next start c cs).rest ∧ Passes taken (next start c cs).rest := by
  have htells {p : Piece} (h : p.Tells) (htoken : p.token = none) (herrors : p.errors = []) :
      ∃ taken, c :: cs = taken ++ p.rest ∧ Passes taken p.rest :=
    absurd herrors (h htoken)
  unfold next at htoken herrors ⊢
  split at htoken <;> rename_i hblank
  · rw [if_pos hblank]
    exact ⟨[c], rfl, fun _ hgap => .blank hblank hgap⟩
  rw [if_neg hblank] at herrors ⊢
  split at htoken <;> rename_i hline
  · rw [if_pos hline]
    obtain ⟨rfl, hhead⟩ : c = '/' ∧ cs.head? = some '/' := by simpa using hline
    obtain ⟨rest, rfl⟩ := List.head?_eq_some_iff.mp hhead
    obtain ⟨inner, hrest, hinner, hend⟩ := lineComment_takes (start + 2) rest
    refine ⟨'/' :: '/' :: inner, congrArg (fun cs => '/' :: '/' :: cs) hrest, ?_⟩
    intro gap behind hsplit hgap
    exact .line hinner (hsplit ▸ hend) hgap
  rw [if_neg hline] at herrors ⊢
  split at htoken <;> rename_i hblock
  · rw [if_pos hblock] at herrors ⊢
    obtain ⟨rfl, hhead⟩ : c = '/' ∧ cs.head? = some '*' := by simpa using hblock
    obtain ⟨rest, rfl⟩ := List.head?_eq_some_iff.mp hhead
    obtain ⟨inner, hrest, hinner⟩ := blockComment_takes start (start + 2) rest herrors
    refine ⟨'/' :: '*' :: (inner ++ ['*', '/']), ?_, fun _ hgap => ?_⟩
    · simpa using hrest
    · simpa using Skipped.block hinner hgap
  rw [if_neg hblock] at herrors ⊢
  refine htells ?_ htoken herrors
  have hif {p : Prop} [Decidable p] {a b : Piece} (ha : a.Tells) (hb : b.Tells) :
      (if p then a else b).Tells := by
    split
    · exact ha
    · exact hb
  refine hif (doubled_tells _ _ _ _ _) (hif (doubled_tells _ _ _ _ _) (hif (string_tells _ _ _ _ _) ?_))
  refine hif (number_tells _ _) (hif nofun ?_)
  split
  · exact nofun
  · exact hif nofun nofun
  · exact fun _ => List.cons_ne_nil _ _

/-! ## The tiles -/

/-- These characters alone are read as this token, in one step. -/
def Alone (text : List Char) (token : Token) : Prop :=
  ∃ c cs, text = c :: cs ∧ (next 0 c cs).bare = (some token, [], [])

/-- The lexemes are those of the text from an offset on, one behind the other, with text that is
passed over in between, and the end of the text behind them all. -/
inductive Tiles (file : Nat) : Nat → List Char → List Lexeme → Prop
  | last {offset : Nat} {gap : List Char} (hgap : Skipped gap []) :
    Tiles file offset gap [⟨.eof, ⟨file, offset + byteWidth gap, offset + byteWidth gap⟩⟩]
  | token {offset : Nat} {gap text rest : List Char} {token : Token} {lexemes : List Lexeme}
    (hgap : Skipped gap (text ++ rest)) (halone : Alone text token)
    (h : Tiles file (offset + byteWidth (gap ++ text)) rest lexemes) :
    Tiles file offset (gap ++ (text ++ rest))
      (⟨token, ⟨file, offset + byteWidth gap, offset + byteWidth (gap ++ text)⟩⟩ :: lexemes)

/-- More text that is passed over in front. -/
theorem Tiles.pass {file offset : Nat} {taken rest : List Char} {lexemes : List Lexeme}
    (h : Tiles file (offset + byteWidth taken) rest lexemes) (hpasses : Passes taken rest) :
    Tiles file offset (taken ++ rest) lexemes := by
  cases h with
  | last hgap =>
    rw [Nat.add_assoc, ← byteWidth_append]
    exact .last (hpasses (List.append_nil _).symm hgap)
  | token hgap halone h =>
    rw [Nat.add_assoc, ← byteWidth_append, ← List.append_assoc] at h
    have htiles := Tiles.token (hpasses rfl hgap) halone h
    simpa only [byteWidth_append, List.append_assoc, Nat.add_assoc] using htiles

/-- A step ends behind what it takes. -/
theorem next_stop {whole : List Char} {start : Nat} {c : Char} {cs taken : List Char}
    (hat : At whole start (c :: cs)) (htaken : c :: cs = taken ++ (next start c cs).rest) :
    (next start c cs).stop = start + byteWidth taken := by
  obtain ⟨front, rfl, rfl⟩ := hat
  obtain ⟨front', hwhole, hstop⟩ := (next_fits ⟨front, rfl, rfl⟩).stop
  rw [htaken, ← List.append_assoc, List.append_left_inj] at hwhole
  rw [← hstop, ← hwhole, byteWidth_append]

/-- A text in which nothing is misspelt is tiled by its lexemes. -/
theorem all_tiles {whole : List Char} {file offset : Nat} {cs : List Char} {found : Found}
    (hat : At whole offset cs) (h : (all file offset cs found).errors = []) :
    ∃ lexemes, (all file offset cs found).lexemes = lexemes.reverse ++ found.lexemes ∧
      Tiles file offset cs lexemes := by
  fun_induction all file offset cs found with
  | case1 offset found => exact ⟨_, rfl, .last .nothing⟩
  | case2 offset found c cs piece ih =>
    obtain ⟨-, hpiece⟩ := no_errors_of_add (no_errors_of_all h)
    obtain ⟨lexemes, hlexemes, htiles⟩ := ih (next_fits hat).stop h
    cases htoken : piece.token with
    | none =>
      obtain ⟨taken, hcs, hpasses⟩ := next_passes offset c cs htoken hpiece
      refine ⟨lexemes, ?_, ?_⟩
      · rw [hlexemes]
        unfold Found.add
        rw [htoken]
      · rw [show piece.stop = _ from next_stop hat hcs] at htiles
        rw [hcs]
        exact htiles.pass hpasses
    | some token =>
      obtain ⟨taken, hcs, halone⟩ := next_cuts offset c cs hpiece
      have hcons : c :: cs = [] ++ ((c :: taken) ++ piece.rest) := congrArg (c :: ·) hcs
      have hstop : piece.stop = offset + byteWidth ([] ++ (c :: taken)) := next_stop hat hcons
      refine ⟨⟨token, ⟨file, offset, piece.stop⟩⟩ :: lexemes, ?_, ?_⟩
      · rw [hlexemes, List.reverse_cons, List.append_assoc]
        unfold Found.add
        rw [htoken]
        rfl
      · rw [hstop] at htiles ⊢
        rw [hcons]
        refine .token (.nothing) ⟨c, taken, rfl, ?_⟩ htiles
        rw [next_bare 0 offset, halone, Piece.bare]
        exact Prod.ext htoken (Prod.ext (congrArg (List.map (·.1)) hpiece) rfl)

/-- The lexemes close with the end of the text, and it is the only end. -/
theorem Tiles.ended {file offset : Nat} {cs : List Char} {lexemes : List Lexeme}
    (h : Tiles file offset cs lexemes) :
    ∃ front, lexemes =
        front ++ [⟨.eof, ⟨file, offset + byteWidth cs, offset + byteWidth cs⟩⟩] ∧
      ∀ lexeme ∈ front, lexeme.token ≠ .eof := by
  induction h with
  | last => exact ⟨[], rfl, nofun⟩
  | @token offset gap text rest token lexemes _ halone _ ih =>
    obtain ⟨front, rfl, hfront⟩ := ih
    refine ⟨⟨token, ⟨file, offset + byteWidth gap, offset + byteWidth (gap ++ text)⟩⟩ :: front,
      ?_, List.forall_mem_cons.mpr ⟨?_, hfront⟩⟩
    · rw [Nat.add_assoc, ← byteWidth_append, List.append_assoc]
      rfl
    · obtain ⟨c, cs, rfl, hread⟩ := halone
      have htoken : (next 0 c cs).token = some token := congrArg (·.1) hread
      exact fun hend => next_inner 0 c cs (htoken.trans (congrArg some hend))

theorem byteWidth_pos {c : Char} {cs : List Char} : 0 < byteWidth (c :: cs) := by
  rw [← List.singleton_append, byteWidth_append, byteWidth_singleton]
  exact Nat.add_pos_left c.utf8Size_pos _

/-- The lexemes stand one behind the other, and none but the end is empty. -/
theorem Tiles.ordered {file offset : Nat} {cs : List Char} {lexemes : List Lexeme}
    (h : Tiles file offset cs lexemes) :
    (∀ lexeme ∈ lexemes, offset ≤ lexeme.span.start ∧
      (lexeme.token ≠ .eof → lexeme.span.start < lexeme.span.stop)) ∧
    lexemes.Pairwise fun a b => a.span.stop ≤ b.span.start := by
  induction h with
  | last =>
    refine ⟨List.forall_mem_singleton.mpr ⟨Nat.le_add_right .., fun hend => ?_⟩,
      List.pairwise_singleton _ _⟩
    exact absurd rfl hend
  | @token offset gap text rest token lexemes _ halone _ ih =>
    obtain ⟨hafter, hordered⟩ := ih
    obtain ⟨c, cs, rfl, -⟩ := halone
    have hwide : 0 < byteWidth (c :: cs) := byteWidth_pos
    refine ⟨List.forall_mem_cons.mpr ⟨⟨Nat.le_add_right .., fun _ => ?_⟩, fun lexeme hlexeme => ?_⟩,
      hordered.cons fun lexeme hlexeme => (hafter lexeme hlexeme).1⟩
    · rw [byteWidth_append]
      dsimp only
      omega
    · obtain ⟨hle, hnonempty⟩ := hafter lexeme hlexeme
      exact ⟨by omega, hnonempty⟩

end Scan

/-- A text stands in a source, in front of other text, between two offsets. -/
structure OccursAt (source text behind : String) (start stop : Nat) : Prop where
  split : ∃ front, source = front ++ text ++ behind ∧ front.utf8ByteSize = start
  stop : stop = start + text.utf8ByteSize

namespace Scan

/-- The characters from an offset on, as a text that stands in the source. -/
theorem At.occursAt {source : String} {offset : Nat} {text rest : List Char}
    (h : At source.toList offset (text ++ rest)) :
    OccursAt source (String.ofList text) (String.ofList rest) offset (offset + byteWidth text) := by
  obtain ⟨front, hsource, rfl⟩ := h
  refine ⟨⟨String.ofList front, ?_, utf8ByteSize_ofList front⟩, by rw [utf8ByteSize_ofList]⟩
  rw [← String.ofList_append, ← String.ofList_append, List.append_assoc, ← hsource,
    String.ofList_toList]

/-- Between two lexemes there is only text that is passed over. -/
def Gapped (source : String) (a b : Span) : Prop :=
  ∃ gap behind, OccursAt source gap behind a.stop b.start ∧ Skipped gap.toList behind.toList

theorem Tiles.gaps {source : String} {file offset : Nat} {cs : List Char} {lexemes : List Lexeme}
    (h : Tiles file offset cs lexemes) (hat : At source.toList offset cs) (start : Nat) :
    (⟨file, start, offset⟩ :: lexemes.map Lexeme.span).IsChain (Gapped source) := by
  induction h generalizing start with
  | @last offset gap hgap =>
    refine .cons_cons ⟨String.ofList gap, String.ofList [], ?_, ?_⟩ (.singleton _)
    · exact At.occursAt (by rwa [List.append_nil])
    · rwa [String.toList_ofList, String.toList_ofList]
  | @token offset gap text rest token lexemes hgap _ _ ih =>
    refine .cons_cons ⟨String.ofList gap, String.ofList (text ++ rest), hat.occursAt, ?_⟩ (ih ?_ _)
    · rwa [String.toList_ofList, String.toList_ofList]
    · rw [← List.append_assoc] at hat
      exact hat.past

/-- What is read alone in one step is a text of one lexeme. -/
theorem Alone.lex {text : List Char} {token : Token} (h : Alone text token) (file : Nat) :
    lex (String.ofList text) file =
      .ok [⟨token, ⟨file, 0, byteWidth text⟩⟩, ⟨.eof, ⟨file, byteWidth text, byteWidth text⟩⟩] := by
  obtain ⟨c, cs, rfl, hread⟩ := h
  obtain ⟨htoken, htail⟩ := Prod.mk.inj hread
  obtain ⟨herrors, hrest⟩ := Prod.mk.inj htail
  have hnone : (next 0 c cs).errors = [] := List.map_eq_nil_iff.mp herrors
  have hstop : (next 0 c cs).stop = byteWidth (c :: cs) := by
    have htaken : c :: cs = (c :: cs) ++ (next 0 c cs).rest := by rw [hrest, List.append_nil]
    rw [next_stop (at_start _) htaken, Nat.zero_add]
  unfold ScriptHost.lex
  rw [String.toList_ofList, all]
  dsimp only
  rw [hrest, hstop, all]
  simp [Found.add, htoken, hnone, hstop]

/-- Each lexeme but the end is that of its own text. -/
theorem Tiles.alone {source : String} {file offset : Nat} {cs : List Char} {lexemes : List Lexeme}
    (h : Tiles file offset cs lexemes) (hat : At source.toList offset cs) :
    ∀ lexeme ∈ lexemes, lexeme.token ≠ .eof →
      ∃ text behind, OccursAt source text behind lexeme.span.start lexeme.span.stop ∧
        ∀ other, ScriptHost.lex text other =
          .ok [⟨lexeme.token, ⟨other, 0, text.utf8ByteSize⟩⟩,
            ⟨.eof, ⟨other, text.utf8ByteSize, text.utf8ByteSize⟩⟩] := by
  induction h with
  | last => exact List.forall_mem_singleton.mpr fun hend => absurd rfl hend
  | @token offset gap text rest token lexemes _ halone _ ih =>
    refine List.forall_mem_cons.mpr ⟨fun _ => ?_, ih ?_⟩
    · refine ⟨String.ofList text, String.ofList rest, ?_, ?_⟩
      · rw [byteWidth_append, ← Nat.add_assoc]
        exact hat.past.occursAt
      · rw [utf8ByteSize_ofList]
        exact halone.lex
    · rw [← List.append_assoc] at hat
      exact hat.past

/-! ## Errors -/

/-- What is wrong is told of at least one character. -/
def Piece.Wide (p : Piece) : Prop :=
  ∀ found ∈ p.errors, found.2.1 < found.2.2

theorem Piece.wide_of_clean {p : Piece} (h : p.errors = []) : p.Wide := by
  unfold Wide
  rw [h]
  exact nofun

theorem Piece.wide_bad (error : LexError) {start stop : Nat} (rest : List Char)
    (h : start < stop) : (bad error start stop rest).Wide :=
  List.forall_mem_singleton.mpr h

theorem lineComment_clean (offset : Nat) (cs : List Char) :
    (lineComment offset cs).errors = [] := by
  fun_induction lineComment offset cs with
  | case1 | case2 => rfl
  | case3 _ _ _ _ ih => exact ih

theorem blockComment_wide (start offset : Nat) (cs : List Char) (h : start < offset) :
    (blockComment start offset cs).Wide := by
  fun_induction blockComment start offset cs with
  | case1 => exact Piece.wide_bad _ _ h
  | case2 => exact Piece.wide_of_clean rfl
  | case3 _ _ _ _ ih => exact ih (by omega)

theorem string_wide (start offset : Nat) (cs text : List Char)
    (errors : List (LexError × Nat × Nat)) (h : start < offset)
    (herrors : ∀ found ∈ errors, found.2.1 < found.2.2) :
    (string start offset cs text errors).Wide := by
  have hunclosed {offset : Nat} (rest text : List Char) {errors : List (LexError × Nat × Nat)}
      (h : start < offset) (herrors : ∀ found ∈ errors, found.2.1 < found.2.2) :
      (string.unclosed start offset rest text errors).Wide := by
    intro found hfound
    rw [string.unclosed, List.mem_reverse, List.mem_cons] at hfound
    obtain rfl | hfound := hfound
    · exact h
    · exact herrors found hfound
  fun_induction string start offset cs text errors with
  | case1 => exact hunclosed _ _ h herrors
  | case2 => exact fun found hfound => herrors found (List.mem_reverse.mp hfound)
  | case3 => exact hunclosed _ _ h herrors
  | case4 => exact hunclosed _ _ (by omega) herrors
  | case5 _ _ _ _ _ _ _ ih => exact ih (by omega) herrors
  | case6 offset c cs _ _ _ ih =>
    refine ih (by omega) (List.forall_mem_cons.mpr ⟨?_, herrors⟩)
    dsimp only
    omega
  | case7 _ _ _ _ _ _ _ _ _ ih => exact ih (by omega) herrors

theorem integer_wide (start : Nat) {digits : List Char} (rest : List Char) (h : digits ≠ []) :
    (integer start digits rest).Wide := by
  have hpos := List.length_pos_iff.mpr h
  unfold integer
  dsimp only
  split
  · exact Piece.wide_of_clean rfl
  · exact Piece.wide_bad _ _ (by omega)

theorem number_wide (start : Nat) {c : Char} (cs : List Char) (h : isDigit c = true) :
    (number start (c :: cs)).Wide := by
  have hdigits : (c :: cs).takeWhile isDigit ≠ [] := by
    rw [List.takeWhile_cons_of_pos h]
    exact List.cons_ne_nil _ _
  unfold number
  dsimp only
  split
  · split
    · exact integer_wide _ _ hdigits
    · exact Piece.wide_of_clean rfl
  · exact integer_wide _ _ hdigits

theorem doubled_wide (c : Char) (token : Token) (error : LexError) (start : Nat)
    (cs : List Char) : (doubled c token error start cs).Wide := by
  unfold doubled
  split
  · exact Piece.wide_bad _ _ (Nat.lt_succ_self _)
  · split
    · exact Piece.wide_of_clean rfl
    · exact Piece.wide_bad _ _ (Nat.lt_succ_self _)

theorem next_wide (start : Nat) (c : Char) (cs : List Char) : (next start c cs).Wide := by
  have hif {p : Prop} [Decidable p] {a b : Piece} (ha : p → a.Wide) (hb : b.Wide) :
      (if p then a else b).Wide := by
    split
    · rename_i hp
      exact ha hp
    · exact hb
  have hclean {p : Prop} (p' : Piece) (h : p'.errors = []) : p → p'.Wide :=
    fun _ => Piece.wide_of_clean h
  unfold next
  refine hif (hclean _ rfl) (hif (hclean _ (lineComment_clean _ _)) ?_)
  refine hif (fun _ => blockComment_wide _ _ _ (by omega)) (hif (fun _ => doubled_wide _ _ _ _ _) ?_)
  refine hif (fun _ => doubled_wide _ _ _ _ _) ?_
  refine hif (fun _ => string_wide _ _ _ _ _ (Nat.lt_succ_self _) nofun) ?_
  refine hif (fun hdigit => number_wide start cs hdigit) (hif (hclean _ rfl) ?_)
  split
  · exact Piece.wide_of_clean rfl
  · exact hif (hclean _ rfl) (Piece.wide_of_clean rfl)
  · exact Piece.wide_bad _ _ (Nat.lt_add_of_pos_right c.utf8Size_pos)

theorem all_wide (file offset : Nat) (cs : List Char) (found : Found)
    (h : ∀ d ∈ found.errors, d.span.start < d.span.stop) :
    ∀ d ∈ (all file offset cs found).errors, d.span.start < d.span.stop := by
  fun_induction all file offset cs found with
  | case1 => exact h
  | case2 offset found c cs piece ih =>
    refine ih fun d hd => ?_
    rw [Found.errors_add_eq, List.mem_append, List.mem_reverse, List.mem_map] at hd
    obtain ⟨error, herror, rfl⟩ | hd := hd
    · exact next_wide offset c cs error herror
    · exact h d hd

/-! ## Where reading comes by -/

/-- Reading a source comes to an offset, with this left of it. -/
inductive Reached (source : String) : Nat → List Char → Prop
  | start : Reached source 0 source.toList
  | step {offset : Nat} {c : Char} {cs : List Char} (h : Reached source offset (c :: cs)) :
    Reached source (next offset c cs).stop (next offset c cs).rest

theorem Reached.at {source : String} {offset : Nat} {cs : List Char}
    (h : Reached source offset cs) : At source.toList offset cs := by
  induction h with
  | start => exact at_start _
  | step _ ih => exact (next_fits ih).stop

/-- Where reading comes to, the rest of it goes on from. -/
theorem Reached.all_eq {source : String} {offset : Nat} {cs : List Char}
    (h : Reached source offset cs) (file : Nat) :
    ∃ found, all file 0 source.toList {} = all file offset cs found := by
  induction h with
  | start => exact ⟨{}, rfl⟩
  | @step offset c cs _ ih =>
    obtain ⟨found, hall⟩ := ih
    exact ⟨found.add file offset (next offset c cs), by rw [hall, all]⟩

end Scan

/-- The lexemes of a source cover it: they are not empty but for the end of the source, they stand
one behind the other with nothing in between that counts, and each is what its own text is read
as. -/
structure Tiled (file : Nat) (source : String) (lexemes : List Lexeme) : Prop where
  within : ∀ lexeme ∈ lexemes, lexeme.span.Within file source
  nonempty : ∀ lexeme ∈ lexemes, lexeme.token ≠ .eof → lexeme.span.start < lexeme.span.stop
  ordered : lexemes.Pairwise fun a b => a.span.stop ≤ b.span.start
  ended : ∃ front, lexemes =
      front ++ [⟨.eof, ⟨file, source.utf8ByteSize, source.utf8ByteSize⟩⟩] ∧
    ∀ lexeme ∈ front, lexeme.token ≠ .eof
  /-- Also in front of the first lexeme. -/
  gaps : (⟨file, 0, 0⟩ :: lexemes.map Lexeme.span).IsChain (Scan.Gapped source)
  alone : ∀ lexeme ∈ lexemes, lexeme.token ≠ .eof →
    ∃ text behind, OccursAt source text behind lexeme.span.start lexeme.span.stop ∧
      ∀ other, lex text other =
        .ok [⟨lexeme.token, ⟨other, 0, text.utf8ByteSize⟩⟩,
          ⟨.eof, ⟨other, text.utf8ByteSize, text.utf8ByteSize⟩⟩]

/-- **The lexer tiles its input.** It stops between characters wherever it comes by, with less left
each time, so that it comes to an end. It hands back lexemes that tile the source, or at least one
error, and each error is told of a stretch of at least one character of the source. -/
theorem lex_tiles (source : String) (file : Nat) :
    (∀ offset c cs, Scan.Reached source offset (c :: cs) →
      (∃ found, Scan.all file 0 source.toList {} = Scan.all file offset (c :: cs) found) ∧
      (⟨offset⟩ : String.Pos.Raw).IsValid source ∧
      (⟨offset + c.utf8Size⟩ : String.Pos.Raw).IsValid source ∧
      (⟨(Scan.next offset c cs).stop⟩ : String.Pos.Raw).IsValid source ∧
      (Scan.next offset c cs).rest.length < (c :: cs).length) ∧
    match lex source file with
    | .ok lexemes => Tiled file source lexemes
    | .error errors => errors ≠ [] ∧
      ∀ d ∈ errors, d.span.Within file source ∧ d.span.start < d.span.stop := by
  refine ⟨fun offset c cs hreached => ?_, ?_⟩
  · exact ⟨hreached.all_eq file, hreached.at.isValid, hreached.at.next.isValid,
      hreached.step.at.isValid, Scan.next_rest_length offset c cs⟩
  · have hstart := Scan.at_start source.toList
    split
    · rename_i lexemes hlex
      obtain ⟨hclean, rfl⟩ := lex_eq_ok hlex
      obtain ⟨lexemes, hread, htiles⟩ := Scan.all_tiles hstart hclean
      rw [hread, List.reverse_append, List.reverse_reverse, List.reverse_nil, List.nil_append]
        at hlex ⊢
      have hended := htiles.ended
      rw [Nat.zero_add, ← utf8ByteSize_ofList, String.ofList_toList] at hended
      exact ⟨(lex_within source file).1 hlex, fun lexeme h => (htiles.ordered.1 lexeme h).2,
        htiles.ordered.2, hended, htiles.gaps hstart 0, htiles.alone hstart⟩
    · rename_i errors hlex
      have hwithin := (lex_within source file).2 hlex
      have hwide := Scan.all_wide file 0 source.toList {} nofun
      unfold lex at hlex
      dsimp only at hlex
      split at hlex
      · cases hlex
      · rename_i hsome
        cases hlex
        refine ⟨fun hnone => hsome ?_, fun d hd => ⟨(hwithin d hd).2, ?_⟩⟩
        · rw [List.reverse_eq_nil_iff.mp hnone]
          rfl
        · exact hwide d (List.mem_reverse.mp hd)

/-- The lexemes of a sum with a comment in it, which holds a character of two bytes. -/
theorem commented_sum_is_tiled :
    Tiled 0 "a/*é*/+ 1" [⟨.ident "a", ⟨0, 0, 1⟩⟩, ⟨.plus, ⟨0, 7, 8⟩⟩, ⟨.int 1, ⟨0, 9, 10⟩⟩,
      ⟨.eof, ⟨0, 10, 10⟩⟩] := by
  have htiles := (lex_tiles "a/*é*/+ 1" 0).2
  have hlex : lex "a/*é*/+ 1" 0 = .ok [⟨.ident "a", ⟨0, 0, 1⟩⟩, ⟨.plus, ⟨0, 7, 8⟩⟩,
      ⟨.int 1, ⟨0, 9, 10⟩⟩, ⟨.eof, ⟨0, 10, 10⟩⟩] := by
    with_unfolding_all rfl
  rw [hlex] at htiles
  exact htiles

end ScriptHost
