import ScriptHost.Proofs.Token.Join
import ScriptHost.Token.Spelling
/-!
# Tokens read back as they were written

A text of tokens with gaps between them has these tokens, and nothing is wrong with its spelling:
`lex_layOut`. The gaps may hold comments with any text in them, and the strings any characters.

`Scan.Reads` says that reading goes through the front of a text and finds certain tokens there. It is
put together from what one step reads, wherever the text starts.
-/

set_option autoImplicit false

namespace ScriptHost

namespace Scan

/-- Reading goes through `cs` as far as `rest`, finds these tokens and nothing wrong, wherever the
text starts and whatever was read before. -/
def Reads (cs : List Char) (tokens : List Token) (rest : List Char) : Prop :=
  ∀ (file offset : Nat) (lexemes : List Lexeme), ∃ (stop : Nat) (read : List Lexeme),
    all file offset cs ⟨lexemes, []⟩ = all file stop rest ⟨read ++ lexemes, []⟩ ∧
      read.map Lexeme.token = tokens.reverse

theorem Reads.refl (cs : List Char) : Reads cs [] cs :=
  fun _ offset _ => ⟨offset, [], rfl, rfl⟩

theorem Reads.trans {cs middle rest : List Char} {tokens others : List Token}
    (h : Reads cs tokens middle) (hrest : Reads middle others rest) :
    Reads cs (tokens ++ others) rest := by
  intro file offset lexemes
  obtain ⟨stop, read, hread, htokens⟩ := h file offset lexemes
  obtain ⟨stop', read', hread', htokens'⟩ := hrest file stop (read ++ lexemes)
  refine ⟨stop', read' ++ read, ?_, ?_⟩
  · rw [hread, hread', List.append_assoc]
  · rw [List.map_append, htokens, htokens', List.reverse_append]

/-- What one step reads. -/
theorem Reads.of_next (token : Option Token) {c : Char} {cs rest : List Char}
    (h : ∀ start, (next start c cs).bare = (token, [], rest)) :
    Reads (c :: cs) token.toList rest := by
  intro file offset lexemes
  obtain ⟨htoken, htail⟩ := Prod.mk.inj (h offset)
  obtain ⟨herrors, hrest⟩ := Prod.mk.inj htail
  have hnone : (next offset c cs).errors = [] := List.map_eq_nil_iff.mp herrors
  refine ⟨(next offset c cs).stop,
    token.toList.map (⟨·, ⟨file, offset, (next offset c cs).stop⟩⟩), ?_, ?_⟩
  · rw [all, hrest]
    unfold Found.add
    rw [htoken, hnone]
    cases token <;> rfl
  · cases token <;> rfl

/-! ## Gaps -/

theorem reads_blank {c : Char} (hc : isBlank c = true) (cs : List Char) : Reads (c :: cs) [] cs :=
  Reads.of_next none fun start => by
    rw [next, if_pos hc]
    rfl

theorem lineComment_inner_bare (offset : Nat) {inner : List Char} (rest : List Char)
    (h : '\n' ∉ inner) :
    (lineComment offset (inner ++ '\n' :: rest)).bare = (none, [], '\n' :: rest) := by
  induction inner generalizing offset with
  | nil => rw [List.nil_append, lineComment, if_pos rfl]; rfl
  | cons c inner ih =>
    rw [List.mem_cons, not_or] at h
    rw [List.cons_append, lineComment, if_neg (Ne.symm h.1)]
    exact ih _ h.2

theorem blockComment_inner_bare (start offset : Nat) {inner : List Char} (rest : List Char)
    (h : ¬ ['*', '/'] <:+: inner) :
    (blockComment start offset (inner ++ '*' :: '/' :: rest)).bare = (none, [], rest) := by
  induction inner generalizing offset with
  | nil => rfl
  | cons c inner ih =>
    rw [List.cons_append, blockComment]
    · exact ih _ fun hinner => h (hinner.trans (List.suffix_cons c inner).isInfix)
    · -- a star in front of a slash would close the comment here
      rintro behind rfl hslash
      cases inner with
      | nil => cases hslash
      | cons d inner =>
        obtain ⟨rfl, -⟩ := List.cons.inj hslash
        exact h (List.prefix_append ['*', '/'] inner).isInfix

theorem reads_line {inner : List Char} (rest : List Char) (h : '\n' ∉ inner) :
    Reads ('/' :: '/' :: (inner ++ '\n' :: rest)) [] ('\n' :: rest) :=
  Reads.of_next none fun start => lineComment_inner_bare (start + 2) rest h

theorem reads_block {inner : List Char} (rest : List Char) (h : ¬ ['*', '/'] <:+: inner) :
    Reads ('/' :: '*' :: (inner ++ '*' :: '/' :: rest)) [] rest :=
  Reads.of_next none fun start => blockComment_inner_bare start (start + 2) rest h

theorem reads_filler {cs : List Char} (h : Filler cs) (rest : List Char) :
    Reads (cs ++ rest) [] rest := by
  induction h with
  | nothing => exact .refl rest
  | blank hc _ ih => exact (reads_blank hc _).trans ih
  | block hopen _ ih =>
    rw [List.cons_append, List.cons_append, List.append_assoc, List.cons_append, List.cons_append]
    exact (reads_block _ hopen).trans ih
  | line hline _ ih =>
    rw [List.cons_append, List.cons_append, List.append_assoc, List.cons_append]
    exact (reads_line _ hline).trans ((reads_blank rfl _).trans ih)

theorem reads_gap {gap : List Char} (h : Gap gap) (rest : List Char) : Reads (gap ++ rest) [] rest := by
  obtain ⟨c, filler, rfl, hc, hfiller⟩ := h
  exact (reads_blank hc _).trans (reads_filler hfiller rest)

/-! ## Tokens -/

/-- The end of a text, or a blank in front of it: no token goes on there. -/
def Loose (cs : List Char) : Prop :=
  ∀ c ∈ cs.head?, isBlank c = true

theorem Loose.head?_ne {cs : List Char} (h : Loose cs) {d : Char} (hd : isBlank d = false) :
    (cs.head? == some d) = false := by
  cases cs with
  | nil => rfl
  | cons c cs =>
    have hc : isBlank c = true := h c rfl
    refine beq_eq_false_iff_ne.mpr fun hsame => ?_
    cases hsame
    exact absurd hc (hd ▸ Bool.false_ne_true)

/-- The characters of a kind that blanks are not of end where a text is loose. -/
theorem Loose.takeWhile_append {p : Char → Bool} (hp : ∀ c, isBlank c = true → p c = false)
    {front rest : List Char} (hfront : ∀ c ∈ front, p c = true) (h : Loose rest) :
    (front ++ rest).takeWhile p = front ∧ (front ++ rest).dropWhile p = rest := by
  rw [List.takeWhile_append_of_pos hfront, List.dropWhile_append_of_pos hfront]
  cases rest with
  | nil => simp
  | cons c rest =>
    have hc : ¬ p c = true := by rw [hp c (h c rfl)]; exact Bool.false_ne_true
    rw [List.takeWhile_cons_of_neg hc, List.dropWhile_cons_of_neg hc, List.append_nil]
    exact ⟨rfl, rfl⟩

theorem isBlank_cases {c : Char} (h : isBlank c = true) :
    c = ' ' ∨ c = '\t' ∨ c = '\n' ∨ c = '\r' := by
  simpa [isBlank, or_assoc] using h

theorem not_digit_of_blank (c : Char) (h : isBlank c = true) : isDigit c = false := by
  obtain rfl | rfl | rfl | rfl := isBlank_cases h <;> rfl

theorem not_wordChar_of_blank (c : Char) (h : isBlank c = true) : isWordChar c = false := by
  obtain rfl | rfl | rfl | rfl := isBlank_cases h <;> rfl

theorem not_digit_of_wordStart {c : Char} (h : isWordStart c = true) : isDigit c = false := by
  have hnine : ¬ ('a' : Char) ≤ '9' ∧ ¬ ('A' : Char) ≤ '9' := by decide
  simp only [isWordStart, Bool.or_eq_true, Bool.and_eq_true, decide_eq_true_eq, beq_iff_eq] at h
  rw [isDigit, Bool.and_eq_false_imp, decide_eq_true_eq]
  intro _
  rw [decide_eq_false_iff_not]
  intro hc
  obtain (⟨ha, -⟩ | ⟨ha, -⟩) | rfl := h
  · exact hnine.1 (Char.le_trans ha hc)
  · exact hnine.2 (Char.le_trans ha hc)
  · exact absurd hc (by decide)

/-- A letter or an underscore starts a word. -/
theorem next_of_wordStart (start : Nat) {c : Char} (cs : List Char) (h : isWordStart c = true) :
    next start c cs = word start (c :: cs) := by
  have hne {d : Char} (hd : isWordStart d = false) : c ≠ d := by
    rintro rfl
    exact absurd h (hd ▸ Bool.false_ne_true)
  have hblank : ¬ isBlank c = true := by
    simp [isBlank, hne (d := ' ') rfl, hne (d := '\t') rfl, hne (d := '\n') rfl, hne (d := '\r') rfl]
  rw [next, if_neg hblank, if_neg (by simp [hne (d := '/') rfl]),
    if_neg (by simp [hne (d := '/') rfl]), if_neg (hne rfl), if_neg (hne rfl), if_neg (hne rfl),
    if_neg (by simp [not_digit_of_wordStart h]), if_pos h]

/-- A digit starts a number. -/
theorem next_of_digit (start : Nat) {c : Char} (cs : List Char) (h : isDigit c = true) :
    next start c cs = number start (c :: cs) := by
  have hne {d : Char} (hd : isDigit d = false) : c ≠ d := by
    rintro rfl
    exact absurd h (hd ▸ Bool.false_ne_true)
  have hblank : ¬ isBlank c = true := by
    simp [isBlank, hne (d := ' ') rfl, hne (d := '\t') rfl, hne (d := '\n') rfl, hne (d := '\r') rfl]
  rw [next, if_neg hblank, if_neg (by simp [hne (d := '/') rfl]),
    if_neg (by simp [hne (d := '/') rfl]), if_neg (hne rfl), if_neg (hne rfl), if_neg (hne rfl),
    if_pos h]

theorem reads_word {c : Char} {cs rest : List Char} (hc : isWordStart c = true)
    (hcs : ∀ d ∈ cs, isWordChar d = true) (h : Loose rest) :
    Reads (c :: cs ++ rest) [.ofWord (String.ofList (c :: cs))] rest := by
  have hall : ∀ d ∈ c :: cs, isWordChar d = true :=
    List.forall_mem_cons.mpr ⟨by rw [isWordChar, hc, Bool.true_or], hcs⟩
  obtain ⟨htake, hdrop⟩ := h.takeWhile_append not_wordChar_of_blank hall
  rw [List.cons_append] at htake hdrop ⊢
  refine Reads.of_next (some _) fun start => ?_
  rw [next_of_wordStart start _ hc, word, htake, hdrop]
  rfl

theorem ofWord_of_not_keyword {name : String} (h : name ∉ keywords) :
    Token.ofWord name = .ident name := by
  simp only [keywords, List.mem_cons, List.not_mem_nil, or_false, not_or] at h
  unfold Token.ofWord
  split <;> simp_all

theorem reads_ident {name : String} {rest : List Char} (hname : IsIdentifier name)
    (h : Loose rest) : Reads (name.toList ++ rest) [.ident name] rest := by
  obtain ⟨⟨c, cs, hchars, hc, hcs⟩, hkeyword⟩ := hname
  have hread := reads_word hc hcs h
  rwa [← hchars, String.ofList_toList, ofWord_of_not_keyword hkeyword] at hread

theorem string_escaped_bare (start offset : Nat) (chars text rest : List Char) :
    (string start offset (chars.flatMap escape ++ '"' :: rest) text []).bare =
      (some (.str (String.ofList (text.reverse ++ chars))), [], rest) := by
  induction chars generalizing offset text with
  | nil => rw [List.append_nil]; rfl
  | cons c chars ih =>
    have hmeant : text.reverse ++ c :: chars = (c :: text).reverse ++ chars := by simp
    rw [List.flatMap_cons, List.append_assoc, hmeant]
    unfold escape
    split
    · exact ih _ _
    · exact ih _ _
    · exact ih _ _
    · exact ih _ _
    next hbreak htab hquote hslash =>
      rw [List.singleton_append, string]
      · exact ih _ _
      · exact hquote
      · exact hbreak
      · exact fun hc _ => hslash hc
      · exact fun _ _ hc _ => hslash hc

theorem reads_str (text : String) (rest : List Char) :
    Reads ('"' :: (text.toList.flatMap escape ++ ['"']) ++ rest) [.str text] rest := by
  rw [List.cons_append, List.append_assoc, List.singleton_append]
  refine Reads.of_next (some (.str text)) fun start => ?_
  change (string start (start + 1) _ [] []).bare = _
  rw [string_escaped_bare, List.reverse_nil, List.nil_append, String.ofList_toList]

theorem number_of_digits (start : Nat) {digits rest : List Char}
    (hdigits : ∀ c ∈ digits, isDigit c = true) (h : Loose rest) :
    number start (digits ++ rest) = integer start digits rest := by
  obtain ⟨htake, hdrop⟩ := h.takeWhile_append not_digit_of_blank hdigits
  rw [number_of_no_point, htake, hdrop]
  intro afterPoint hpoint
  rw [hdrop] at hpoint
  have hdot := h.head?_ne (d := '.') rfl
  rw [hpoint] at hdot
  cases hdot

theorem reads_float {text rest : List Char} {value : Float} (htext : ReadsBack text value)
    (h : Loose rest) : Reads (text ++ rest) [.float value] rest := by
  obtain ⟨whole, fraction, rfl, hwhole, hfraction, hdigits, hplaces, hvalue⟩ := htext
  obtain ⟨c, cs, rfl⟩ := List.exists_cons_of_ne_nil hwhole
  obtain ⟨htake, hdrop⟩ := h.takeWhile_append not_digit_of_blank hplaces
  have hpoint : (c :: cs ++ '.' :: fraction ++ rest).dropWhile isDigit =
      '.' :: (fraction ++ rest) := by
    rw [List.append_assoc, List.dropWhile_append_of_pos hdigits]
    rfl
  have hfront : (c :: cs ++ '.' :: fraction ++ rest).takeWhile isDigit = c :: cs := by
    rw [List.append_assoc, List.takeWhile_append_of_pos hdigits]
    exact List.append_nil _
  refine Reads.of_next (some (.float value)) fun start => ?_
  rw [next_of_digit start _ (hdigits c List.mem_cons_self)]
  change (number start (c :: cs ++ '.' :: fraction ++ rest)).bare = _
  rw [number_of_point hpoint, hfront, htake, hdrop, if_neg (by simpa using hfraction), hvalue]
  rfl

theorem isDigit_eq (c : Char) : isDigit c = c.isDigit := by
  rw [isDigit, Char.isDigit]
  rfl

theorem reads_int {value : Int64} {rest : List Char} (hvalue : 0 ≤ value.toInt) (h : Loose rest) :
    Reads (Nat.toDigits 10 value.toInt.toNat ++ rest) [.int value] rest := by
  have hdigits : ∀ c ∈ Nat.toDigits 10 value.toInt.toNat, isDigit c = true := fun c hc => by
    rw [isDigit_eq]
    exact Nat.isDigit_of_mem_toDigits (by omega) (by omega) hc
  have hnumber : Decimal.ofDigits (Nat.toDigits 10 value.toInt.toNat) = value.toInt.toNat :=
    Nat.ofDigitChars_toDigits (by omega) (by omega)
  obtain ⟨c, cs, hcs⟩ := List.exists_cons_of_ne_nil
    (Nat.toDigits_ne_nil (n := value.toInt.toNat) (b := 10))
  have hback : (value.toInt.toNat : Int) = value.toInt := Int.toNat_of_nonneg hvalue
  have hfits : Checked.fits (value.toInt.toNat : Int) = true := by
    rw [hback, Checked.fits, Bool.and_eq_true, decide_eq_true_eq, decide_eq_true_eq]
    exact ⟨value.minValue_le_toInt, value.toInt_le⟩
  have hsame : Int64.ofNat value.toInt.toNat = value := by
    rw [← Int64.ofInt_eq_ofNat, hback, Int64.ofInt_toInt]
  rw [hcs] at hdigits hnumber ⊢
  have hread (start : Nat) : next start c (cs ++ rest) = integer start (c :: cs) rest := by
    rw [next_of_digit start _ (hdigits c List.mem_cons_self)]
    exact number_of_digits start hdigits h
  rw [List.cons_append]
  refine Reads.of_next (some (.int value)) fun start => ?_
  rw [hread, integer, hnumber, if_pos hfits, hsame]
  rfl

/-- A token that can be written is read where no token goes on behind it. -/
theorem reads_spelling {float : Float → List Char} {token : Token} {rest : List Char}
    (hprint : token.Printable float) (h : Loose rest) :
    Reads (token.spelling float ++ rest) [token] rest := by
  have hmark {c : Char} {token : Token} (hone : ∀ start, next start c rest = .good token (start + 1) rest) :
      Reads (c :: rest) [token] rest :=
    Reads.of_next (some token) fun start => by rw [hone start]; rfl
  have hequals := h.head?_ne (d := '=') rfl
  cases token with
  | int value => exact reads_int hprint h
  | float value => exact reads_float hprint h
  | str text => exact reads_str text rest
  | ident name => exact reads_ident hprint h
  | eof => exact hprint.elim
  | kwTrue | kwFalse | kwNull | kwNamespace | kwClass | kwFn | kwLet | kwIf | kwElse | kwWhile
  | kwReturn | kwNew | kwThis => exact reads_word rfl (List.all_eq_true.mp rfl) h
  | lparen | rparen | lbrace | rbrace | comma | dot | semicolon | plus | minus | star | percent =>
    exact hmark fun start => rfl
  | slash =>
    refine hmark fun start => ?_
    have hline := h.head?_ne (d := '/') rfl
    have hblock := h.head?_ne (d := '*') rfl
    simp [next, hline, hblock, isBlank, isDigit, isWordStart, mark?]
  | lt | gt | bang | eq =>
    refine hmark fun start => ?_
    simp [next, hequals, isBlank, isDigit, isWordStart, mark?, comparison?]
  | le | ge | eqEq | ne | and | or => exact Reads.of_next (some _) fun start => rfl

theorem Gap.loose {gap : List Char} (h : Gap gap) (rest : List Char) : Loose (gap ++ rest) := by
  obtain ⟨c, filler, rfl, hc, -⟩ := h
  rintro _ ⟨⟩
  exact hc

theorem reads_spaced {float : Float → List Char} {tokens : List (Token × List Char)}
    (hprint : ∀ entry ∈ tokens, entry.1.Printable float) (hspaced : Spaced tokens) :
    Reads (tokens.flatMap fun (token, gap) => token.spelling float ++ gap) (tokens.map (·.1)) [] := by
  induction tokens with
  | nil => exact .refl []
  | cons entry rest ih =>
    obtain ⟨token, gap⟩ := entry
    obtain ⟨htoken, hrest⟩ := List.forall_mem_cons.mp hprint
    rw [List.flatMap_cons, List.append_assoc]
    cases rest with
    | nil =>
      obtain rfl | hgap := hspaced
      · exact reads_spelling htoken nofun
      · exact (reads_spelling htoken (hgap.loose _)).trans (reads_gap hgap _)
    | cons other rest =>
      obtain ⟨hgap, hbehind⟩ := hspaced
      exact (reads_spelling htoken (hgap.loose _)).trans
        ((reads_gap hgap _).trans (ih hrest hbehind))

theorem lex_of_reads {cs : List Char} {tokens : List Token} (h : Reads cs tokens []) (file : Nat) :
    ∃ lexemes, lex (String.ofList cs) file = .ok lexemes ∧
      lexemes.map Lexeme.token = tokens ++ [.eof] := by
  obtain ⟨stop, read, hread, htokens⟩ := h file 0 []
  refine ⟨read.reverse ++ [⟨.eof, ⟨file, stop, stop⟩⟩], ?_, ?_⟩
  · unfold lex
    rw [String.toList_ofList]
    dsimp only
    rw [show Scan.all file 0 cs {} = _ from hread, Scan.all]
    simp
  · rw [List.map_append, List.map_reverse, htokens, List.reverse_reverse]
    rfl

end Scan

/-- Tokens that are laid out with gaps between them are read as they were written, and nothing is
wrong with their spelling. -/
theorem lex_layOut {float : Float → List Char} {front : List Char}
    {tokens : List (Token × List Char)} (hfront : Scan.Filler front)
    (hprint : ∀ entry ∈ tokens, entry.1.Printable float) (hspaced : Spaced tokens) (file : Nat) :
    ∃ lexemes, lex (layOut float front tokens) file = .ok lexemes ∧
      lexemes.map Lexeme.token = tokens.map (·.1) ++ [.eof] :=
  Scan.lex_of_reads ((Scan.reads_filler hfront _).trans (Scan.reads_spaced hprint hspaced)) file

/-- A comment with a quotation mark and stars in it, a slash in front of a line comment, a number, and a
string of characters that must be escaped. -/
theorem commented_tokens_read_back :
    ∃ lexemes, lex (layOut (fun _ => ['1', '.', '5'])
        ('/' :: '*' :: (['"', '*', 'ü', '*'] ++ '*' :: '/' :: []))
        [(.ident "iff", [' ']), (.slash, ' ' :: '/' :: '/' :: (['*', '"', 'ü'] ++ '\n' :: [])),
          (.float 1.5, ['\t']), (.le, ['\r', '\n']), (.int 7, [' ']), (.str "\"\\\né", [])]) 0 =
        .ok lexemes ∧
      lexemes.map Lexeme.token =
        [.ident "iff", .slash, .float 1.5, .le, .int 7, .str "\"\\\né", .eof] := by
  have hname : IsIdentifier "iff" := ⟨⟨'i', ['f', 'f'], by decide, rfl, List.all_eq_true.mp rfl⟩, by decide⟩
  have hnumber : ReadsBack ['1', '.', '5'] 1.5 :=
    ⟨['1'], ['5'], rfl, by decide, by decide, List.all_eq_true.mp rfl, List.all_eq_true.mp rfl,
      by decide +kernel⟩
  refine lex_layOut (.block (by decide) .nothing) ?_ ?_ 0
  · simp only [List.forall_mem_cons]
    exact ⟨hname, trivial, hnumber, trivial, (by decide : 0 ≤ (7 : Int64).toInt), trivial, nofun⟩
  · exact ⟨⟨_, _, rfl, rfl, .nothing⟩, ⟨_, _, rfl, rfl, .line (by decide) .nothing⟩,
      ⟨_, _, rfl, rfl, .nothing⟩, ⟨_, _, rfl, rfl, .blank rfl .nothing⟩, ⟨_, _, rfl, rfl, .nothing⟩,
      .inl rfl⟩

end ScriptHost
