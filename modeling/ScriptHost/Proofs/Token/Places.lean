import ScriptHost.Token.Scan
/-!
# Where lexemes stand and end

The lexemes of a source text stand in the text, and the last one of them is its end.
-/

set_option autoImplicit false

/-! ## Where lexemes end

Every source text that is spelled well ends with the one lexeme that stands for its end. -/

namespace ScriptHost

/-- The last lexeme, and no other, is an end. -/
def Ended (lexemes : List Lexeme) : Prop :=
  ∃ front last, lexemes = front ++ [last] ∧ last.token = .eof ∧
    ∀ lexeme ∈ front, lexeme.token ≠ .eof

namespace Scan

/-- What is read is no end. -/
def Piece.Inner (p : Piece) : Prop :=
  p.token ≠ some .eof

@[simp]
theorem Piece.inner_skip (stop : Nat) (rest : List Char) : (skip stop rest).Inner := by
  simp [Inner, skip]

@[simp]
theorem Piece.inner_bad (error : LexError) (start stop : Nat) (rest : List Char) :
    (bad error start stop rest).Inner := by
  simp [Inner, bad]

@[simp]
theorem Piece.inner_good (token : Token) (stop : Nat) (rest : List Char) :
    (good token stop rest).Inner ↔ token ≠ .eof := by
  simp [Inner, good]

theorem lineComment_inner (offset : Nat) (cs : List Char) : (lineComment offset cs).Inner := by
  fun_induction lineComment offset cs with
  | case1 | case2 => simp
  | case3 _ _ _ _ ih => exact ih

theorem blockComment_inner (start offset : Nat) (cs : List Char) :
    (blockComment start offset cs).Inner := by
  fun_induction blockComment start offset cs with
  | case1 | case2 => simp
  | case3 _ _ _ _ ih => exact ih

theorem string_inner (start offset : Nat) (cs text : List Char)
    (errors : List (LexError × Nat × Nat)) : (string start offset cs text errors).Inner := by
  fun_induction string start offset cs text errors with
  | case1 | case2 | case3 | case4 => simp [Piece.Inner, string.unclosed]
  | case5 | case6 | case7 => assumption

theorem integer_inner (start : Nat) (digits rest : List Char) :
    (integer start digits rest).Inner := by
  unfold integer
  dsimp only
  split <;> simp

theorem number_inner (start : Nat) (cs : List Char) : (number start cs).Inner := by
  unfold number
  dsimp only
  split
  · split
    · exact integer_inner _ _ _
    · simp
  · exact integer_inner _ _ _

theorem ofWord_inner (word : String) : Token.ofWord word ≠ .eof := by
  unfold Token.ofWord
  split <;> exact Token.noConfusion

theorem doubled_inner (c : Char) {token : Token} (htoken : token ≠ .eof) (error : LexError)
    (start : Nat) (cs : List Char) : (doubled c token error start cs).Inner := by
  unfold doubled
  split
  · simp
  · split
    · exact (Piece.inner_good _ _ _).mpr htoken
    · simp

theorem next_inner (start : Nat) (c : Char) (cs : List Char) : (next start c cs).Inner := by
  have hif {p : Prop} [Decidable p] {a b : Piece} (ha : a.Inner) (hb : b.Inner) :
      (if p then a else b).Inner := by
    split
    · exact ha
    · exact hb
  have hword : (word start (c :: cs)).Inner := fun h => ofWord_inner _ (Option.some.inj h)
  unfold next
  refine hif (Piece.inner_skip _ _) (hif (lineComment_inner _ _) ?_)
  refine hif (blockComment_inner _ _ _) ?_
  refine hif (doubled_inner _ Token.noConfusion _ _ _) ?_
  refine hif (doubled_inner _ Token.noConfusion _ _ _) (hif (string_inner _ _ _ _ _) ?_)
  refine hif (number_inner _ _) (hif hword ?_)
  split
  · rename_i token _ hmark
    unfold mark? at hmark
    split at hmark <;> cases hmark <;> simp
  · rename_i alone withEq _ hcomparison
    unfold comparison? at hcomparison
    split at hcomparison <;> cases hcomparison <;> exact hif (by simp) (by simp)
  · simp

theorem all_ended (file offset : Nat) (cs : List Char) (found : Found)
    (h : ∀ lexeme ∈ found.lexemes, lexeme.token ≠ .eof) :
    ∃ last read, (all file offset cs found).lexemes = last :: read ∧ last.token = .eof ∧
      ∀ lexeme ∈ read, lexeme.token ≠ .eof := by
  fun_induction all file offset cs found with
  | case1 offset found => exact ⟨_, _, rfl, rfl, h⟩
  | case2 offset found c cs piece ih =>
    refine ih fun lexeme hlexeme => ?_
    have hinner := next_inner offset c cs
    unfold Found.add at hlexeme
    cases htoken : piece.token with
    | none =>
      rw [htoken] at hlexeme
      exact h lexeme hlexeme
    | some token =>
      rw [htoken] at hlexeme
      obtain rfl | hlexeme := List.mem_cons.mp hlexeme
      · exact fun hend => hinner (htoken.trans (congrArg some hend))
      · exact h lexeme hlexeme

end Scan

/-- The lexemes of a text end where the text does. -/
theorem lex_ended {source : String} {file : Nat} {lexemes : List Lexeme}
    (h : lex source file = .ok lexemes) : Ended lexemes := by
  obtain ⟨last, read, hread, hlast, hinner⟩ :=
    Scan.all_ended file 0 source.toList {} (by simp)
  unfold lex at h
  dsimp only at h
  split at h
  · cases h
    refine ⟨read.reverse, last, ?_, hlast, fun lexeme hlexeme =>
      hinner lexeme (List.mem_reverse.mp hlexeme)⟩
    rw [hread, List.reverse_cons]
  · cases h

end ScriptHost

/-! ## Where lexemes stand

Lexing counts bytes, and it only ever stops between two characters. So the place of a lexeme, and
that of an error in the spelling, is a stretch of characters of the text that is read:
`lex_within`. -/

namespace ScriptHost

/-- A place in the text with a number: it does not end before it starts, and both ends are in front
of a character of the text or at its end. -/
structure Span.Within (span : Span) (file : Nat) (source : String) : Prop where
  file : span.file = file
  ordered : span.start ≤ span.stop
  start : (⟨span.start⟩ : String.Pos.Raw).IsValid source
  stop : (⟨span.stop⟩ : String.Pos.Raw).IsValid source

theorem Span.Within.stop_le {span : Span} {file : Nat} {source : String}
    (h : span.Within file source) : span.stop ≤ source.utf8ByteSize :=
  h.stop.le_rawEndPos

/-- A place that covers two places of a text is a place of that text. -/
theorem Span.Within.merge {a b : Span} {file : Nat} {source : String} (ha : a.Within file source)
    (hb : b.Within file source) : (a.merge b).Within file source := by
  have hordered := ha.ordered
  refine ⟨ha.file, ?_, ?_, ?_⟩
  · simp only [Span.merge]
    omega
  · obtain hmin | hmin : min a.start b.start = a.start ∨ min a.start b.start = b.start := by omega
    · simpa only [Span.merge, hmin] using ha.start
    · simpa only [Span.merge, hmin] using hb.start
  · obtain hmax | hmax : max a.stop b.stop = a.stop ∨ max a.stop b.stop = b.stop := by omega
    · simpa only [Span.merge, hmax] using ha.stop
    · simpa only [Span.merge, hmax] using hb.stop

theorem byteWidth_append (front rest : List Char) :
    byteWidth (front ++ rest) = byteWidth front + byteWidth rest := by
  have hfrom (cs : List Char) (n : Nat) :
      cs.foldl (fun n c => n + c.utf8Size) n = n + byteWidth cs := by
    induction cs generalizing n with
    | nil => rfl
    | cons c cs ih =>
      rw [byteWidth, List.foldl_cons, List.foldl_cons, ih, ih]
      omega
  rw [byteWidth, List.foldl_append, hfrom]
  rfl

theorem byteWidth_singleton (c : Char) : byteWidth [c] = c.utf8Size :=
  Nat.zero_add _

/-- The width of characters is the size of the string made of them. -/
theorem utf8ByteSize_ofList (cs : List Char) : (String.ofList cs).utf8ByteSize = byteWidth cs := by
  induction cs with
  | nil => rfl
  | cons c cs ih =>
    rw [← List.singleton_append, String.ofList_append, String.utf8ByteSize_append, ih,
      byteWidth_append, byteWidth_singleton]
    congr 1
    exact String.utf8ByteSize_singleton

namespace Scan

/-- Reading a text has come to an offset, and this is left of the text. -/
def At (whole : List Char) (offset : Nat) (cs : List Char) : Prop :=
  ∃ front, whole = front ++ cs ∧ byteWidth front = offset

variable {whole : List Char} {offset : Nat}

theorem at_start (whole : List Char) : At whole 0 whole :=
  ⟨[], rfl, rfl⟩

/-- Past some characters. -/
theorem At.past {taken cs : List Char} (h : At whole offset (taken ++ cs)) :
    At whole (offset + byteWidth taken) cs := by
  obtain ⟨front, rfl, rfl⟩ := h
  exact ⟨front ++ taken, (List.append_assoc ..).symm, byteWidth_append ..⟩

/-- Past one character. -/
theorem At.next {c : Char} {cs : List Char} (h : At whole offset (c :: cs)) :
    At whole (offset + c.utf8Size) cs := by
  rw [← List.singleton_append] at h
  rw [← byteWidth_singleton]
  exact h.past

/-- Past one character that is known. -/
theorem At.next_of {c : Char} {cs : List Char} (h : At whole offset (c :: cs)) {size : Nat}
    (hsize : c.utf8Size = size) : At whole (offset + size) cs :=
  hsize ▸ h.next

/-- Reading stops between characters. -/
theorem At.isValid {source : String} {cs : List Char} (h : At source.toList offset cs) :
    (⟨offset⟩ : String.Pos.Raw).IsValid source := by
  obtain ⟨front, hsource, rfl⟩ := h
  apply String.Pos.Raw.isValid_iff_exists_append.mpr
  refine ⟨String.ofList front, String.ofList cs, ?_, ?_⟩
  · rw [← String.ofList_append, ← hsource, String.ofList_toList]
  · rw [String.Pos.Raw.ext_iff, String.byteIdx_rawEndPos, utf8ByteSize_ofList]

/-- The less is left, the further reading has come. -/
theorem At.le {later : Nat} {cs rest : List Char} (h : At whole offset cs)
    (hlater : At whole later rest) (hlength : rest.length ≤ cs.length) : offset ≤ later := by
  obtain ⟨front, rfl, rfl⟩ := h
  obtain ⟨longer, hsame, rfl⟩ := hlater
  have hlengths := congrArg List.length hsame
  rw [List.length_append, List.length_append] at hlengths
  obtain ⟨taken, rfl⟩ : front <+: longer :=
    List.prefix_of_prefix_length_le ⟨cs, rfl⟩ ⟨rest, hsame.symm⟩ (by omega)
  rw [byteWidth_append]
  omega

/-- An offset between characters. -/
def Between (whole : List Char) (offset : Nat) : Prop :=
  ∃ cs, At whole offset cs

theorem At.between {cs : List Char} (h : At whole offset cs) : Between whole offset :=
  ⟨cs, h⟩

/-- An error is told between characters, and with the nearer end first. -/
def ErrorAt (whole : List Char) (found : LexError × Nat × Nat) : Prop :=
  Between whole found.2.1 ∧ Between whole found.2.2 ∧ found.2.1 ≤ found.2.2

/-- What was read off a text ends between characters, and its errors are told so. -/
structure Piece.Fits (whole : List Char) (piece : Piece) : Prop where
  stop : At whole piece.stop piece.rest
  errors : ∀ found ∈ piece.errors, ErrorAt whole found

theorem Piece.fits_skip {cs : List Char} (h : At whole offset cs) :
    (Piece.skip offset cs).Fits whole :=
  ⟨h, nofun⟩

theorem Piece.fits_good (token : Token) {cs : List Char} (h : At whole offset cs) :
    (Piece.good token offset cs).Fits whole :=
  ⟨h, nofun⟩

theorem Piece.fits_bad (error : LexError) {start : Nat} {cs : List Char}
    (hstart : Between whole start) (hle : start ≤ offset) (h : At whole offset cs) :
    (Piece.bad error start offset cs).Fits whole :=
  ⟨h, List.forall_mem_singleton.mpr ⟨hstart, h.between, hle⟩⟩

theorem lineComment_fits {cs : List Char} (h : At whole offset cs) :
    (lineComment offset cs).Fits whole := by
  induction cs generalizing offset with
  | nil => exact Piece.fits_skip h
  | cons c cs ih =>
    rw [lineComment]
    split
    · exact Piece.fits_skip h
    · exact ih h.next

theorem blockComment_fits {start : Nat} {cs : List Char} (hstart : Between whole start)
    (hle : start ≤ offset) (h : At whole offset cs) :
    (blockComment start offset cs).Fits whole := by
  fun_induction blockComment start offset cs with
  | case1 offset => exact Piece.fits_bad _ hstart hle h
  | case2 offset cs => exact Piece.fits_skip ((h.next_of rfl).next_of rfl)
  | case3 offset c cs _ ih => exact ih (by omega) h.next

theorem string_fits {start : Nat} {cs text : List Char} {errors : List (LexError × Nat × Nat)}
    (hstart : Between whole start) (hle : start ≤ offset) (h : At whole offset cs)
    (herrors : ∀ found ∈ errors, ErrorAt whole found) :
    (string start offset cs text errors).Fits whole := by
  have hunclosed {offset : Nat} {cs text : List Char} {errors : List (LexError × Nat × Nat)}
      (hle : start ≤ offset) (h : At whole offset cs)
      (herrors : ∀ found ∈ errors, ErrorAt whole found) :
      (string.unclosed start offset cs text errors).Fits whole := by
    refine ⟨h, fun found hfound => ?_⟩
    rw [string.unclosed, List.mem_reverse, List.mem_cons] at hfound
    obtain rfl | hfound := hfound
    · exact ⟨hstart, h.between, hle⟩
    · exact herrors found hfound
  fun_induction string start offset cs text errors with
  | case1 => exact hunclosed hle h herrors
  | case2 offset cs =>
    refine ⟨h.next_of rfl, fun found hfound => herrors found (List.mem_reverse.mp hfound)⟩
  | case3 => exact hunclosed hle h herrors
  | case4 => exact hunclosed (by omega) (h.next_of rfl) herrors
  | case5 _ _ _ _ _ _ _ ih => exact ih (by omega) (h.next_of rfl).next herrors
  | case6 offset c cs _ _ _ ih =>
    have hnext : At whole (offset + 1 + c.utf8Size) cs := (h.next_of rfl).next
    refine ih (by omega) hnext (List.forall_mem_cons.mpr ⟨⟨h.between, hnext.between, ?_⟩, herrors⟩)
    dsimp only
    omega
  | case7 _ _ _ _ _ _ _ _ _ ih => exact ih (by omega) h.next herrors

/-- A character of ASCII is one byte. -/
theorem utf8Size_of_le {c : Char} (h : c ≤ '~') : c.utf8Size = 1 := by
  have hval : c.val ≤ 0x7f := Nat.le_trans (UInt32.le_iff_toNat_le.mp h) (by decide)
  exact if_pos hval

theorem utf8Size_of_isDigit {c : Char} (h : isDigit c = true) : c.utf8Size = 1 := by
  rw [isDigit, Bool.and_eq_true, decide_eq_true_eq, decide_eq_true_eq] at h
  exact utf8Size_of_le (Char.le_trans h.2 (by decide))

theorem utf8Size_of_isWordChar {c : Char} (h : isWordChar c = true) : c.utf8Size = 1 := by
  simp only [isWordChar, isWordStart, Bool.or_eq_true, Bool.and_eq_true, decide_eq_true_eq,
    beq_iff_eq] at h
  obtain ((⟨-, hle⟩ | ⟨-, hle⟩) | rfl) | hdigit := h
  · exact utf8Size_of_le (Char.le_trans hle (by decide))
  · exact utf8Size_of_le (Char.le_trans hle (by decide))
  · rfl
  · exact utf8Size_of_isDigit hdigit

theorem byteWidth_takeWhile {p : Char → Bool} (hp : ∀ c, p c = true → c.utf8Size = 1)
    (cs : List Char) : byteWidth (cs.takeWhile p) = (cs.takeWhile p).length := by
  induction cs with
  | nil => rfl
  | cons c cs ih =>
    rw [List.takeWhile_cons]
    split
    · rename_i hc
      rw [← List.singleton_append, byteWidth_append, byteWidth_singleton, ih, hp c hc,
        List.singleton_append, List.length_cons, Nat.add_comm]
    · rfl

/-- Past characters that are one byte each. -/
theorem At.takeWhile {p : Char → Bool} (hp : ∀ c, p c = true → c.utf8Size = 1) {cs : List Char}
    (h : At whole offset cs) :
    At whole (offset + (cs.takeWhile p).length) (cs.dropWhile p) := by
  rw [← byteWidth_takeWhile hp]
  apply At.past
  rwa [List.takeWhile_append_dropWhile]

theorem integer_fits {start : Nat} {digits rest : List Char} (hstart : Between whole start)
    (h : At whole (start + digits.length) rest) : (integer start digits rest).Fits whole := by
  unfold integer
  dsimp only
  split
  · exact Piece.fits_good _ h
  · exact Piece.fits_bad _ hstart (Nat.le_add_right ..) h

theorem number_fits {start : Nat} {cs : List Char} (h : At whole start cs) :
    (number start cs).Fits whole := by
  have hwhole := h.takeWhile fun _ => utf8Size_of_isDigit
  unfold number
  dsimp only
  split
  · rename_i afterPoint hrest
    rw [hrest] at hwhole
    split
    · exact integer_fits h.between hwhole
    · exact Piece.fits_good _ ((hwhole.next_of rfl).takeWhile fun _ => utf8Size_of_isDigit)
  · exact integer_fits h.between hwhole

theorem word_fits {start : Nat} {cs : List Char} (h : At whole start cs) :
    (word start cs).Fits whole :=
  Piece.fits_good _ (h.takeWhile fun _ => utf8Size_of_isWordChar)

theorem doubled_fits {c : Char} {token : Token} {error : LexError} {start : Nat} {cs : List Char}
    (hc : c.utf8Size = 1) (h : At whole start (c :: cs)) :
    (doubled c token error start cs).Fits whole := by
  have hnext := h.next_of hc
  unfold doubled
  split
  · exact Piece.fits_bad _ h.between (Nat.le_succ _) hnext
  · split
    · rename_i hsame
      subst hsame
      exact Piece.fits_good _ (hnext.next_of hc)
    · exact Piece.fits_bad _ h.between (Nat.le_succ _) hnext

theorem utf8Size_of_mark {c : Char} {token : Token} (h : mark? c = some token) :
    c.utf8Size = 1 := by
  unfold mark? at h
  split at h <;> first | rfl | cases h

theorem utf8Size_of_comparison {c : Char} {tokens : Token × Token}
    (h : comparison? c = some tokens) : c.utf8Size = 1 := by
  unfold comparison? at h
  split at h <;> first | rfl | cases h

/-- One thing is read off the front of a text. -/
theorem next_fits {start : Nat} {c : Char} {cs : List Char} (h : At whole start (c :: cs)) :
    (next start c cs).Fits whole := by
  have hsecond {d : Char} {size : Nat} (hc : c.utf8Size = 1) (hd : d.utf8Size = size)
      (hhead : cs.head? = some d) : At whole (start + 1 + size) cs.tail := by
    rw [List.head?_eq_some_iff] at hhead
    obtain ⟨rest, rfl⟩ := hhead
    exact (h.next_of hc).next_of hd
  unfold next
  split
  · rename_i hblank
    refine Piece.fits_skip (h.next_of ?_)
    simp only [isBlank, Bool.or_eq_true, beq_iff_eq] at hblank
    obtain ((rfl | rfl) | rfl) | rfl := hblank <;> rfl
  split
  · rename_i hslash
    rw [Bool.and_eq_true, decide_eq_true_eq, beq_iff_eq] at hslash
    obtain ⟨rfl, hhead⟩ := hslash
    exact lineComment_fits (hsecond rfl rfl hhead)
  split
  · rename_i hstar
    rw [Bool.and_eq_true, decide_eq_true_eq, beq_iff_eq] at hstar
    obtain ⟨rfl, hhead⟩ := hstar
    exact blockComment_fits h.between (Nat.le_add_right ..) (hsecond rfl rfl hhead)
  split
  · rename_i hbar
    subst hbar
    exact doubled_fits rfl h
  split
  · rename_i hampersand
    subst hampersand
    exact doubled_fits rfl h
  split
  · rename_i hquote
    subst hquote
    exact string_fits h.between (Nat.le_succ _) (h.next_of rfl) nofun
  split
  · exact number_fits h
  split
  · exact word_fits h
  split
  · rename_i token hmark
    exact Piece.fits_good _ (h.next_of (utf8Size_of_mark hmark))
  · rename_i alone withEq _ hcomparison
    have hc := utf8Size_of_comparison hcomparison
    split
    · rename_i heq
      exact Piece.fits_good _ (hsecond hc rfl (beq_iff_eq.mp heq))
    · exact Piece.fits_good _ (h.next_of hc)
  · exact Piece.fits_bad _ h.between (Nat.le_add_right ..) h.next

/-- All that has been read of a text stands in it. -/
structure Found.Within (file : Nat) (source : String) (found : Found) : Prop where
  lexemes : ∀ lexeme ∈ found.lexemes, lexeme.span.Within file source
  errors : ∀ d ∈ found.errors, d.stage = .lexer ∧ d.span.Within file source

/-- A piece is added with its place. -/
theorem Found.Within.add {file start : Nat} {source : String} {found : Found} {cs : List Char}
    {piece : Piece} (h : found.Within file source) (hstart : At source.toList start cs)
    (hpiece : piece.Fits source.toList) (hlength : piece.rest.length ≤ cs.length) :
    (found.add file start piece).Within file source := by
  refine ⟨?_, ?_⟩
  · unfold Found.add
    dsimp only
    split
    · refine List.forall_mem_cons.mpr ⟨⟨rfl, ?_, hstart.isValid, hpiece.stop.isValid⟩, h.lexemes⟩
      exact hstart.le hpiece.stop hlength
    · exact h.lexemes
  · have hall : ∀ (found : List (LexError × Nat × Nat)) (errors : List Diagnostic),
        (∀ e ∈ found, ErrorAt source.toList e) →
        (∀ d ∈ errors, d.stage = .lexer ∧ d.span.Within file source) →
          ∀ d ∈ found.foldl (fun errors e => e.1.placed ⟨file, e.2.1, e.2.2⟩ :: errors) errors,
            d.stage = .lexer ∧ d.span.Within file source := by
      intro found
      induction found with
      | nil => exact fun _ _ herrors => herrors
      | cons first rest ih =>
        intro errors hfound herrors
        obtain ⟨⟨⟨_, hfirst⟩, ⟨_, hlast⟩, hle⟩, hrest⟩ := List.forall_mem_cons.mp hfound
        exact ih _ hrest (List.forall_mem_cons.mpr
          ⟨⟨rfl, rfl, hle, hfirst.isValid, hlast.isValid⟩, herrors⟩)
    exact hall piece.errors found.errors hpiece.errors h.errors

/-- A text that is read to its end. -/
theorem all_within {file offset : Nat} {source : String} {cs : List Char} {found : Found}
    (hat : At source.toList offset cs) (h : found.Within file source) :
    (all file offset cs found).Within file source := by
  fun_induction all file offset cs found with
  | case1 =>
    refine ⟨List.forall_mem_cons.mpr ⟨?_, h.lexemes⟩, h.errors⟩
    exact ⟨rfl, Nat.le_refl _, hat.isValid, hat.isValid⟩
  | case2 offset found c cs piece ih =>
    have hpiece : piece.Fits source.toList := next_fits hat
    have hlength : piece.rest.length ≤ (c :: cs).length :=
      Nat.le_of_lt (next_rest_length offset c cs)
    exact ih hpiece.stop (h.add hat hpiece hlength)

end Scan

/-- Lexemes and errors stand in the text that is read. -/
theorem lex_within (source : String) (file : Nat) :
    (∀ {lexemes}, lex source file = .ok lexemes →
        ∀ lexeme ∈ lexemes, lexeme.span.Within file source) ∧
      ∀ {errors}, lex source file = .error errors →
        ∀ d ∈ errors, d.stage = .lexer ∧ d.span.Within file source := by
  have hall := Scan.all_within (Scan.at_start source.toList)
    (⟨nofun, nofun⟩ : Scan.Found.Within file source {})
  unfold lex
  dsimp only
  constructor
  · intro lexemes h lexeme hlexeme
    split at h
    · cases h
      exact hall.lexemes lexeme (List.mem_reverse.mp hlexeme)
    · cases h
  · intro errors h d hd
    split at h
    · cases h
    · cases h
      exact hall.errors d (List.mem_reverse.mp hd)

end ScriptHost
