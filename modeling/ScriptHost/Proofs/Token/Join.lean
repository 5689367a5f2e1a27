import ScriptHost.Proofs.Grammar.Bare
import ScriptHost.Token.Scan
/-!
# The tokens of two texts on lines of their own

A text without errors that is put in front of a line break has the tokens that it has alone, and what
comes behind the line break is read as if it were a text of its own. For a comment may end at a line
break, a string may not go past one, and no other token reaches over one. Where a text stands makes no
difference to its tokens but for their places.
-/

set_option autoImplicit false

namespace ScriptHost

namespace Scan

/-! ## Wherever a text stands -/

/-- What is read off the front of a text, without places. -/
def Piece.bare (p : Piece) : Option Token × List LexError × List Char :=
  (p.token, p.errors.map (·.1), p.rest)

theorem lineComment_bare (cs : List Char) (offset offset' : Nat) :
    (lineComment offset cs).bare = (lineComment offset' cs).bare := by
  induction cs generalizing offset offset' with
  | nil => rfl
  | cons c cs ih =>
    unfold lineComment
    split
    · rfl
    · exact ih _ _

theorem blockComment_bare (start start' offset offset' : Nat) (cs : List Char) :
    (blockComment start offset cs).bare = (blockComment start' offset' cs).bare := by
  fun_induction blockComment start offset cs generalizing offset' with
  | case1 => rfl
  | case2 => rfl
  | case3 offset c cs hclose ih =>
    rw [ih (offset' + c.utf8Size), blockComment]
    exact hclose

theorem string_bare (start start' offset offset' : Nat) (cs text : List Char)
    (errors errors' : List (LexError × Nat × Nat)) (h : errors.map (·.1) = errors'.map (·.1)) :
    (string start offset cs text errors).bare = (string start' offset' cs text errors').bare := by
  fun_induction string start offset cs text errors generalizing offset' errors' with
  | case1 => simp [string, string.unclosed, Piece.bare, h]
  | case2 => simp [string, Piece.bare, h]
  | case3 => simp [string, string.unclosed, Piece.bare, h]
  | case4 => simp [string, string.unclosed, Piece.bare, h]
  | case5 _ _ _ _ _ _ hmeant ih =>
    rw [ih _ _ h, string, hmeant]
  | case6 _ _ _ _ _ hunknown ih =>
    rw [string, hunknown]
    exact ih _ _ (by rw [List.map_cons, List.map_cons, h])
  | case7 _ _ _ _ _ _ _ _ _ ih =>
    rw [ih _ _ h, string] <;> assumption

theorem integer_bare (start start' : Nat) (digits rest : List Char) :
    (integer start digits rest).bare = (integer start' digits rest).bare := by
  unfold integer
  dsimp only
  split <;> rfl

theorem number_bare (start start' : Nat) (cs : List Char) :
    (number start cs).bare = (number start' cs).bare := by
  unfold number
  dsimp only
  split
  · split
    · exact integer_bare ..
    · rfl
  · exact integer_bare ..

theorem doubled_bare (c : Char) (token : Token) (error : LexError) (start start' : Nat)
    (cs : List Char) :
    (doubled c token error start cs).bare = (doubled c token error start' cs).bare := by
  unfold doubled
  split
  · rfl
  · split <;> rfl

/-- What is read off the front of a text is the same wherever the text starts. -/
theorem next_bare (start start' : Nat) (c : Char) (cs : List Char) :
    (next start c cs).bare = (next start' c cs).bare := by
  have hif {p : Prop} [Decidable p] {a b a' b' : Piece} (ha : a.bare = a'.bare)
      (hb : b.bare = b'.bare) : (if p then a else b).bare = (if p then a' else b').bare := by
    split
    · exact ha
    · exact hb
  unfold next
  refine hif rfl (hif (lineComment_bare ..) (hif (blockComment_bare ..) ?_))
  refine hif (doubled_bare ..) (hif (doubled_bare ..) (hif (string_bare _ _ _ _ _ _ _ _ rfl) ?_))
  refine hif (number_bare ..) (hif rfl ?_)
  split
  · rfl
  · exact hif rfl rfl
  · rfl

/-- What has been read, without places. -/
def Found.bare (found : Found) : List Token × List (Severity × Stage × String) :=
  (found.lexemes.map Lexeme.token, found.errors.map Diagnostic.said)

theorem Found.errors_add_eq (found : Found) (file start : Nat) (p : Piece) :
    (found.add file start p).errors =
      (p.errors.map fun (error, first, last) => error.placed ⟨file, first, last⟩).reverse ++
        found.errors :=
  List.foldl_flip_cons_eq_append

theorem Found.bare_add {found found' : Found} (h : found.bare = found'.bare) {p p' : Piece}
    (hp : p.bare = p'.bare) (file file' start start' : Nat) :
    (found.add file start p).bare = (found'.add file' start' p').bare := by
  unfold Found.bare at h
  unfold Piece.bare at hp
  simp only [Prod.mk.injEq] at h hp
  obtain ⟨hlexemes, herrors⟩ := h
  obtain ⟨htoken, hfirst, -⟩ := hp
  have hsaid (file : Nat) (errors : List (LexError × Nat × Nat)) :
      (errors.map fun (error, first, last) => error.placed ⟨file, first, last⟩).map
          Diagnostic.said =
        (errors.map (·.1)).map fun error => (.error, .lexer, error.message) := by
    rw [List.map_map, List.map_map]
    rfl
  unfold Found.bare
  refine Prod.ext ?_ ?_
  · unfold Found.add
    dsimp only
    rw [htoken]
    cases p'.token with
    | none => exact hlexemes
    | some token => exact congrArg (token :: ·) hlexemes
  · dsimp only
    rw [errors_add_eq, errors_add_eq, List.map_append, List.map_append, List.map_reverse,
      List.map_reverse, hsaid, hsaid, hfirst, herrors]

/-- A text has the same tokens, or the same errors, wherever it stands. -/
theorem all_bare (file file' offset offset' : Nat) (cs : List Char) (found found' : Found)
    (h : found.bare = found'.bare) :
    (all file offset cs found).bare = (all file' offset' cs found').bare := by
  fun_induction all file offset cs found generalizing offset' found' with
  | case1 offset found =>
    rw [all]
    unfold Found.bare at h ⊢
    simp only [Prod.mk.injEq] at h
    obtain ⟨hlexemes, herrors⟩ := h
    simp [hlexemes, herrors]
  | case2 offset found c cs piece ih =>
    have hpiece := next_bare offset offset' c cs
    have hrest : piece.rest = (next offset' c cs).rest := congrArg (·.2.2) hpiece
    rw [ih _ _ (Found.bare_add h hpiece file file' offset offset'), all, hrest]

/-! ## A line break behind a text -/

/-- What was read of a text is read in the same way if something is put behind the text. -/
def Piece.Holds (p q : Piece) (more : List Char) : Prop :=
  p.errors = [] → q = { p with rest := p.rest ++ more }

variable {more : List Char}

theorem lineComment_holds (offset : Nat) (cs : List Char) :
    (lineComment offset cs).Holds (lineComment offset (cs ++ '\n' :: more)) ('\n' :: more) := by
  intro h
  induction cs generalizing offset with
  | nil => simp [lineComment, Piece.skip]
  | cons c cs ih =>
    rw [List.cons_append, lineComment, lineComment]
    split
    · rfl
    · rename_i hc
      rw [lineComment, if_neg hc] at h
      exact ih _ h

theorem blockComment_holds (start offset : Nat) (cs : List Char) :
    (blockComment start offset cs).Holds (blockComment start offset (cs ++ more)) more := by
  intro h
  fun_induction blockComment start offset cs with
  | case1 => cases h
  | case2 => rfl
  | case3 offset c cs hclose ih =>
    rw [List.cons_append, blockComment]
    · exact ih h
    · intro rest hstar hslash
      cases cs with
      | nil => cases h
      | cons d ds =>
        obtain ⟨rfl, -⟩ := List.cons.inj hslash
        exact hclose ds hstar rfl

theorem string_holds (start offset : Nat) (cs text : List Char)
    (errors : List (LexError × Nat × Nat)) :
    (string start offset cs text errors).Holds
      (string start offset (cs ++ more) text errors) more := by
  intro h
  fun_induction string start offset cs text errors with
  | case1 => simp [string.unclosed] at h
  | case2 => simp [string]
  | case3 => simp [string.unclosed] at h
  | case4 => simp [string.unclosed] at h
  | case5 _ _ _ _ _ _ hmeant ih => 
    rw [List.cons_append, List.cons_append, string, hmeant]
    exact ih h
  | case6 _ _ _ _ _ hunknown ih => 
    rw [List.cons_append, List.cons_append, string, hunknown]
    exact ih h
  | case7 offset c cs text errors hquote hbreak hlast hescape ih =>
    have hplain : c ≠ '\\' := fun hc => by
      cases cs with
      | nil => exact hlast hc rfl
      | cons d ds => exact hescape d ds hc rfl
    rw [List.cons_append, string]
    · exact ih h
    · exact hquote
    · exact hbreak
    · exact fun hc _ => hplain hc
    · exact fun _ _ hc _ => hplain hc

/-- Characters that a line break cannot belong to end where they ended. -/
theorem takeWhile_append_break (more : List Char) {p : Char → Bool} (hp : p '\n' = false) (cs : List Char) :
    (cs ++ '\n' :: more).takeWhile p = cs.takeWhile p ∧
      (cs ++ '\n' :: more).dropWhile p = cs.dropWhile p ++ '\n' :: more := by
  induction cs with
  | nil => simp [hp]
  | cons c cs ih =>
    rw [List.cons_append]
    by_cases hc : p c = true
    · simp [hc, ih]
    · simp [hc]

theorem integer_holds (start : Nat) (digits rest : List Char) :
    (integer start digits rest).Holds (integer start digits (rest ++ more)) more := by
  intro h
  unfold integer at h ⊢
  dsimp only at h ⊢
  split
  · rfl
  · rename_i hfits
    rw [if_neg hfits] at h
    cases h

/-- A number with a point behind its digits. -/
theorem number_of_point {start : Nat} {cs afterPoint : List Char}
    (h : cs.dropWhile isDigit = '.' :: afterPoint) :
    number start cs =
      if (afterPoint.takeWhile isDigit).isEmpty then
        integer start (cs.takeWhile isDigit) ('.' :: afterPoint)
      else
        .good (.float (Decimal.ofParts (cs.takeWhile isDigit) (afterPoint.takeWhile isDigit)).toFloat)
          (start + (cs.takeWhile isDigit).length + 1 + (afterPoint.takeWhile isDigit).length)
          (afterPoint.dropWhile isDigit) := by
  unfold number
  rw [h]
  rfl

/-- A number with no point behind its digits. -/
theorem number_of_no_point {start : Nat} {cs : List Char}
    (h : ∀ afterPoint, cs.dropWhile isDigit ≠ '.' :: afterPoint) :
    number start cs = integer start (cs.takeWhile isDigit) (cs.dropWhile isDigit) := by
  unfold number
  dsimp only
  split
  · rename_i hpoint
    exact absurd hpoint (h _)
  · rfl

theorem number_holds (start : Nat) (cs : List Char) :
    (number start cs).Holds (number start (cs ++ '\n' :: more)) ('\n' :: more) := by
  obtain ⟨htake, hdrop⟩ := takeWhile_append_break more (p := isDigit) rfl cs
  by_cases hpoint : ∃ afterPoint, cs.dropWhile isDigit = '.' :: afterPoint
  · obtain ⟨afterPoint, hpoint⟩ := hpoint
    obtain ⟨hfraction, hbehind⟩ :=
      takeWhile_append_break more (p := isDigit) rfl afterPoint
    rw [hpoint, List.cons_append] at hdrop
    rw [number_of_point hpoint, number_of_point hdrop, htake, hfraction, hbehind]
    split
    · exact integer_holds _ _ ('.' :: afterPoint)
    · exact fun _ => rfl
  · have hnone := not_exists.mp hpoint
    have hnone' : ∀ afterPoint, (cs ++ '\n' :: more).dropWhile isDigit ≠ '.' :: afterPoint := by
      intro afterPoint hpoint
      rw [hdrop] at hpoint
      cases hrest : cs.dropWhile isDigit with
      | nil =>
        rw [hrest] at hpoint
        cases hpoint
      | cons c rest =>
        rw [hrest, List.cons_append] at hpoint
        obtain ⟨rfl, -⟩ := List.cons.inj hpoint
        exact hnone rest hrest
    rw [number_of_no_point hnone, number_of_no_point hnone', htake, hdrop]
    exact integer_holds _ _ _

theorem doubled_holds (c : Char) (token : Token) (error : LexError) (start : Nat)
    (cs : List Char) :
    (doubled c token error start cs).Holds (doubled c token error start (cs ++ more)) more := by
  intro h
  cases cs with
  | nil => cases h
  | cons d cs =>
    unfold doubled at h ⊢
    dsimp only [List.cons_append] at h ⊢
    split
    · rfl
    · rename_i hd
      rw [if_neg hd] at h
      cases h

theorem word_holds (start : Nat) (cs : List Char) :
    (word start cs).Holds (word start (cs ++ '\n' :: more)) ('\n' :: more) := by
  obtain ⟨htake, hdrop⟩ := takeWhile_append_break more (p := isWordChar) rfl cs
  intro _
  unfold word
  rw [htake, hdrop]
  rfl

/-- What is read off the front of a text is read off it also if a line break is put behind the text,
unless there is something wrong with it. -/
theorem next_holds (start : Nat) (c : Char) (cs : List Char) :
    (next start c cs).Holds (next start c (cs ++ '\n' :: more)) ('\n' :: more) := by
  have hif {p : Prop} [Decidable p] {a b a' b' : Piece} (ha : p → a.Holds a' ('\n' :: more))
      (hb : b.Holds b' ('\n' :: more)) :
      (if p then a else b).Holds (if p then a' else b') ('\n' :: more) := by
    split
    · rename_i hp
      exact ha hp
    · exact hb
  have hhead (d : Char) (hd : d ≠ '\n') :
      ((cs ++ '\n' :: more).head? == some d) = (cs.head? == some d) := by
    cases cs with
    | nil => simpa using Ne.symm hd
    | cons first rest => rfl
  have htail (d : Char) (hd : (cs.head? == some d) = true) :
      (cs ++ '\n' :: more).tail = cs.tail ++ '\n' :: more := by
    cases cs with
    | nil => cases hd
    | cons first rest => rfl
  unfold next
  rw [hhead '/' (by decide), hhead '*' (by decide), hhead '=' (by decide)]
  refine hif (fun _ _ => rfl) ?_
  refine hif (fun hline => ?_) (hif (fun hblock => ?_) ?_)
  · rw [Bool.and_eq_true] at hline
    rw [htail '/' hline.2]
    exact lineComment_holds _ _
  · rw [Bool.and_eq_true] at hblock
    rw [htail '*' hblock.2]
    exact blockComment_holds _ _ _
  refine hif (fun _ => doubled_holds _ _ _ _ _) (hif (fun _ => doubled_holds _ _ _ _ _) ?_)
  refine hif (fun _ => string_holds _ _ _ _ _) (hif (fun _ => number_holds _ (c :: cs)) ?_)
  refine hif (fun _ => word_holds _ (c :: cs)) ?_
  split
  · exact fun _ => rfl
  · refine hif (fun hequal => ?_) fun _ => rfl
    rw [htail '=' hequal]
    exact fun _ => rfl
  · exact nofun

/-- Where no error is found in the end, none has been found before, and none in between. -/
theorem no_errors_of_add {found : Found} {file start : Nat} {p : Piece}
    (h : (found.add file start p).errors = []) : found.errors = [] ∧ p.errors = [] := by
  rw [Found.errors_add_eq, List.append_eq_nil_iff, List.reverse_eq_nil_iff,
    List.map_eq_nil_iff] at h
  exact h.symm

theorem no_errors_of_all {file offset : Nat} {cs : List Char} {found : Found}
    (h : (all file offset cs found).errors = []) : found.errors = [] := by
  fun_induction all file offset cs found with
  | case1 => exact h
  | case2 offset found c cs piece ih => exact (no_errors_of_add (ih h)).1

/-- A text without errors is read to its end also if a line break is put behind it, and from there
reading goes on behind it. -/
theorem all_append (file offset : Nat) (cs more : List Char) (found : Found)
    (h : (all file offset cs found).errors = []) :
    ∃ (stop : Nat) (read : List Lexeme),
      (all file offset cs found).lexemes = ⟨.eof, ⟨file, stop, stop⟩⟩ :: read ∧
        all file offset (cs ++ '\n' :: more) found = all file stop ('\n' :: more) ⟨read, []⟩ := by
  fun_induction all file offset cs found with
  | case1 offset found =>
    refine ⟨offset, found.lexemes, rfl, ?_⟩
    rw [List.nil_append, ← h]
  | case2 offset found c cs piece ih =>
    obtain ⟨-, hpiece⟩ := no_errors_of_add (no_errors_of_all h)
    obtain ⟨stop, read, hread, hgoes⟩ := ih h
    refine ⟨stop, read, hread, ?_⟩
    rw [List.cons_append, all, next_holds offset c cs hpiece]
    exact hgoes

/-- What has been read on top of what was read before. -/
def Found.over (found below : Found) : Found where
  lexemes := found.lexemes ++ below.lexemes
  errors := found.errors ++ below.errors

theorem Found.add_over (found below : Found) (file start : Nat) (p : Piece) :
    (found.over below).add file start p = (found.add file start p).over below := by
  have herrors : ((found.over below).add file start p).errors =
      ((found.add file start p).over below).errors := by
    change _ = (found.add file start p).errors ++ below.errors
    rw [errors_add_eq, errors_add_eq, List.append_assoc]
    rfl
  have hlexemes : ((found.over below).add file start p).lexemes =
      ((found.add file start p).over below).lexemes := by
    unfold Found.add Found.over
    cases p.token <;> rfl
  exact congr (congrArg Found.mk hlexemes) herrors

/-- What was read before is nothing to what is read. -/
theorem all_over (file offset : Nat) (cs : List Char) (found below : Found) :
    all file offset cs (found.over below) = (all file offset cs found).over below := by
  fun_induction all file offset cs found with
  | case1 offset found =>
    rw [all]
    rfl
  | case2 offset found c cs piece ih => rw [all, Found.add_over, ih]

end Scan

/-- Where a text stands is nothing to what its tokens are, or to what is wrong with its spelling. -/
theorem lex_bare (source : String) (file file' : Nat) :
    ReadSame (fun a b => a.map Lexeme.token = b.map Lexeme.token) (lex source file)
      (lex source file') := by
  have hall := Scan.all_bare file file' 0 0 source.toList {} {} rfl
  unfold lex
  dsimp only
  generalize Scan.all file 0 source.toList {} = found at hall ⊢
  generalize Scan.all file' 0 source.toList {} = found' at hall ⊢
  obtain ⟨lexemes, errors⟩ := found
  obtain ⟨lexemes', errors'⟩ := found'
  obtain ⟨hlexemes, herrors⟩ := Prod.mk.inj hall
  have hsame : SaySame errors errors' := herrors
  dsimp only
  by_cases hnone : errors = []
  · rw [hnone, hsame.nil_iff.mp hnone]
    exact .ok (by rw [List.map_reverse, List.map_reverse, hlexemes])
  · have hsome : errors' ≠ [] := fun h => hnone (hsame.nil_iff.mpr h)
    rw [if_neg (by simpa using hnone), if_neg (by simpa using hsome)]
    refine .error ?_
    unfold SaySame at hsame ⊢
    rw [List.map_reverse, List.map_reverse, hsame]

/-- The lexemes of a text in which nothing is misspelt. -/
theorem lex_eq_ok {source : String} {file : Nat} {lexemes : List Lexeme}
    (h : lex source file = .ok lexemes) :
    (Scan.all file 0 source.toList {}).errors = [] ∧
      lexemes = (Scan.all file 0 source.toList {}).lexemes.reverse := by
  unfold lex at h
  dsimp only at h
  split at h
  · rename_i hempty
    cases h
    exact ⟨List.isEmpty_iff.mp hempty, rfl⟩
  · cases h

/-- Two texts on lines of their own have the tokens of the first and then those of the second. -/
theorem lex_join {first second : String} {file other : Nat} {lexemes lexemes' : List Lexeme}
    (hfirst : lex first file = .ok lexemes) (hsecond : lex second other = .ok lexemes') :
    ∃ front last rest, lexemes = front ++ [last] ∧ last.token = .eof ∧
      lex (first ++ "\n" ++ second) file = .ok (front ++ rest) ∧
        rest.map Lexeme.token = lexemes'.map Lexeme.token := by
  obtain ⟨hclean, rfl⟩ := lex_eq_ok hfirst
  obtain ⟨hclean', rfl⟩ := lex_eq_ok hsecond
  obtain ⟨stop, read, hread, hgoes⟩ :=
    Scan.all_append file 0 first.toList second.toList {} hclean
  have hbare := Scan.all_bare file other (stop + 1) 0 second.toList {} {} rfl
  have hall : Scan.all file 0 (first ++ "\n" ++ second).toList {} =
      (Scan.all file (stop + 1) second.toList {}).over ⟨read, []⟩ := by
    have hchars : (first ++ "\n" ++ second).toList =
        first.toList ++ '\n' :: second.toList := by simp
    rw [hchars, hgoes, Scan.all, ← Scan.all_over]
    rfl
  generalize Scan.all file (stop + 1) second.toList {} = found at hbare hall
  generalize Scan.all other 0 second.toList {} = found' at hbare hclean'
  obtain ⟨htokens, herrors⟩ := Prod.mk.inj hbare
  have hnone : found.errors = [] := by
    rw [hclean'] at herrors
    exact List.map_eq_nil_iff.mp herrors
  refine ⟨read.reverse, ⟨.eof, ⟨file, stop, stop⟩⟩, found.lexemes.reverse, ?_, rfl, ?_, ?_⟩
  · rw [hread, List.reverse_cons]
  · unfold lex
    dsimp only
    rw [hall, Scan.Found.over, hnone]
    simp
  · rw [List.map_reverse, List.map_reverse, htokens]

end ScriptHost
