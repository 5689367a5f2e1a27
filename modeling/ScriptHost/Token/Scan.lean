import ScriptHost.Number.Checked
import ScriptHost.Token.Basic
/-!
# Reading the tokens of a source text

A source text is read from left to right. `Scan.next` reads one thing off its front: a blank, a
comment, a token, or something misspelt; it always takes at least one character. `lex` repeats it
to the end, and hands back either all tokens or all errors.

Offsets count bytes of UTF-8. Letters and digits are those of ASCII; any other character stands
only in a string or a comment.
-/

set_option autoImplicit false

namespace ScriptHost.Scan

/-- A blank between tokens. -/
def isBlank (c : Char) : Bool :=
  c == ' ' || c == '\t' || c == '\n' || c == '\r'

/-- A decimal digit. -/
def isDigit (c : Char) : Bool :=
  decide ('0' ≤ c) && decide (c ≤ '9')

/-- A character that starts an identifier or a keyword. -/
def isWordStart (c : Char) : Bool :=
  (decide ('a' ≤ c) && decide (c ≤ 'z')) || (decide ('A' ≤ c) && decide (c ≤ 'Z')) || c == '_'

/-- A character inside an identifier or a keyword. -/
def isWordChar (c : Char) : Bool :=
  isWordStart c || isDigit c

/-- What was read off the front of a text: the token, if there was one, the errors in it, each
between two offsets, the offset reached and the text that is left. -/
structure Piece where
  token : Option Token
  errors : List (LexError × Nat × Nat)
  stop : Nat
  rest : List Char

/-- A token with nothing wrong in it. -/
def Piece.good (token : Token) (stop : Nat) (rest : List Char) : Piece :=
  ⟨some token, [], stop, rest⟩

/-- Text that is passed over. -/
def Piece.skip (stop : Nat) (rest : List Char) : Piece :=
  ⟨none, [], stop, rest⟩

/-- A single error and no token. -/
def Piece.bad (error : LexError) (start stop : Nat) (rest : List Char) : Piece :=
  ⟨none, [(error, start, stop)], stop, rest⟩

/-- A comment that ends before the next line break. -/
def lineComment : Nat → List Char → Piece
  | offset, [] => .skip offset []
  | offset, c :: cs =>
    if c = '\n' then .skip offset (c :: cs) else lineComment (offset + c.utf8Size) cs

/-- The inside of a comment that started at `start` and ends at the next `*/`. -/
def blockComment (start : Nat) : Nat → List Char → Piece
  | offset, [] => .bad .unterminatedComment start offset []
  | offset, '*' :: '/' :: cs => .skip (offset + 2) cs
  | offset, c :: cs => blockComment start (offset + c.utf8Size) cs

/-- The character that a backslash and this character stand for. -/
def unescape? : Char → Option Char
  | 'n' => some '\n'
  | 't' => some '\t'
  | '"' => some '"'
  | '\\' => some '\\'
  | _ => none

/-- The inside of a string that started at `start`: up to the closing quote, or to the end of the
line. A string that does not close is a token all the same. The characters and errors found so far
come last first. -/
def string (start : Nat) :
    Nat → List Char → List Char → List (LexError × Nat × Nat) → Piece
  | offset, [], text, errors => unclosed offset [] text errors
  | offset, '"' :: cs, text, errors =>
    ⟨some (.str (String.ofList text.reverse)), errors.reverse, offset + 1, cs⟩
  | offset, '\n' :: cs, text, errors => unclosed offset ('\n' :: cs) text errors
  | offset, ['\\'], text, errors => unclosed (offset + 1) [] text errors
  | offset, '\\' :: c :: cs, text, errors =>
    match unescape? c with
    | some meant => string start (offset + 1 + c.utf8Size) cs (meant :: text) errors
    | none =>
      string start (offset + 1 + c.utf8Size) cs text
        ((.unknownEscape c, offset, offset + 1 + c.utf8Size) :: errors)
  | offset, c :: cs, text, errors => string start (offset + c.utf8Size) cs (c :: text) errors
where
  /-- A string that the end of its line or of the text cuts off. -/
  unclosed (offset : Nat) (rest text : List Char) (errors : List (LexError × Nat × Nat)) : Piece :=
    ⟨some (.str (String.ofList text.reverse)),
      (((.unterminatedString, start, offset) : LexError × Nat × Nat) :: errors).reverse,
      offset, rest⟩

/-- A whole number, which must have a 64-bit value. -/
def integer (start : Nat) (digits rest : List Char) : Piece :=
  let value := Decimal.ofDigits digits
  if Checked.fits value then .good (.int (Int64.ofNat value)) (start + digits.length) rest
  else .bad (.integerTooLarge (String.ofList digits)) start (start + digits.length) rest

/-- A number: digits, and a fraction where a point has a digit behind it. `cs` starts with a
digit. -/
def number (start : Nat) (cs : List Char) : Piece :=
  let whole := cs.takeWhile isDigit
  match cs.dropWhile isDigit with
  | '.' :: afterPoint =>
    let fraction := afterPoint.takeWhile isDigit
    if fraction.isEmpty then integer start whole ('.' :: afterPoint)
    else
      .good (.float (Decimal.ofParts whole fraction).toFloat)
        (start + whole.length + 1 + fraction.length) (afterPoint.dropWhile isDigit)
  | rest => integer start whole rest

/-- A keyword or an identifier. `cs` starts with a letter or an underscore. -/
def word (start : Nat) (cs : List Char) : Piece :=
  let letters := cs.takeWhile isWordChar
  .good (.ofWord (String.ofList letters)) (start + letters.length) (cs.dropWhile isWordChar)

/-- The marks that are a token by themselves, whatever follows. -/
def mark? : Char → Option Token
  | '(' => some .lparen
  | ')' => some .rparen
  | '{' => some .lbrace
  | '}' => some .rbrace
  | ',' => some .comma
  | '.' => some .dot
  | ';' => some .semicolon
  | '+' => some .plus
  | '-' => some .minus
  | '*' => some .star
  | '/' => some .slash
  | '%' => some .percent
  | _ => none

/-- The marks that `=` may follow: what they mean alone, and what they mean with it. -/
def comparison? : Char → Option (Token × Token)
  | '<' => some (.lt, .le)
  | '>' => some (.gt, .ge)
  | '=' => some (.eq, .eqEq)
  | '!' => some (.bang, .ne)
  | _ => none

/-- A mark that must be doubled. -/
def doubled (c : Char) (token : Token) (error : LexError) (start : Nat) : List Char → Piece
  | [] => .bad error start (start + 1) []
  | d :: cs =>
    if d = c then .good token (start + 2) cs else .bad error start (start + 1) (d :: cs)

/-- Reads one thing off the front of the text `c :: cs`, which starts at `start`. -/
def next (start : Nat) (c : Char) (cs : List Char) : Piece :=
  if isBlank c then .skip (start + 1) cs
  else if c = '/' && cs.head? == some '/' then lineComment (start + 2) cs.tail
  else if c = '/' && cs.head? == some '*' then blockComment start (start + 2) cs.tail
  else if c = '|' then doubled '|' .or .loneBar start cs
  else if c = '&' then doubled '&' .and .loneAmpersand start cs
  else if c = '"' then string start (start + 1) cs [] []
  else if isDigit c then number start (c :: cs)
  else if isWordStart c then word start (c :: cs)
  else
    match mark? c, comparison? c with
    | some token, _ => .good token (start + 1) cs
    | none, some (alone, withEq) =>
      if cs.head? == some '=' then .good withEq (start + 2) cs.tail else .good alone (start + 1) cs
    | none, none => .bad (.unexpectedChar c) start (start + c.utf8Size) cs

/-! ## Every step takes something -/

theorem lineComment_rest_length (offset : Nat) (cs : List Char) :
    (lineComment offset cs).rest.length ≤ cs.length := by
  induction cs generalizing offset with
  | nil => simp [lineComment, Piece.skip]
  | cons c cs ih =>
    unfold lineComment
    split
    · simp [Piece.skip]
    · exact Nat.le_succ_of_le (ih _)

theorem blockComment_rest_length (start offset : Nat) (cs : List Char) :
    (blockComment start offset cs).rest.length ≤ cs.length := by
  fun_induction blockComment start offset cs with
  | case1 => simp [Piece.bad]
  | case2 offset cs => simp only [Piece.skip, List.length_cons]; omega
  | case3 offset c cs _ ih => simp only [List.length_cons]; omega

theorem string_rest_length (start offset : Nat) (cs text : List Char)
    (errors : List (LexError × Nat × Nat)) :
    (string start offset cs text errors).rest.length ≤ cs.length := by
  fun_induction string start offset cs text errors with
  | case1 => simp [string.unclosed]
  | case2 => simp
  | case3 => simp [string.unclosed]
  | case4 => simp [string.unclosed]
  | case5 => simp only [List.length_cons]; omega
  | case6 => simp only [List.length_cons]; omega
  | case7 => simp only [List.length_cons]; omega

theorem dropWhile_length_le (p : Char → Bool) (cs : List Char) :
    (cs.dropWhile p).length ≤ cs.length :=
  (List.dropWhile_sublist p).length_le

theorem dropWhile_length_lt (p : Char → Bool) (c : Char) (cs : List Char) (h : p c = true) :
    ((c :: cs).dropWhile p).length < (c :: cs).length := by
  rw [List.dropWhile_cons_of_pos h]
  exact Nat.lt_succ_of_le (dropWhile_length_le p cs)

theorem integer_rest (start : Nat) (digits rest : List Char) :
    (integer start digits rest).rest = rest := by
  unfold integer
  dsimp only
  split <;> rfl

theorem number_rest_length (start : Nat) (c : Char) (cs : List Char) (h : isDigit c = true) :
    (number start (c :: cs)).rest.length < (c :: cs).length := by
  have hlt := dropWhile_length_lt isDigit c cs h
  unfold number
  dsimp only
  split
  next afterPoint heq =>
    rw [heq] at hlt
    split
    · rwa [integer_rest]
    · have hpoint := dropWhile_length_le isDigit afterPoint
      simp only [Piece.good, List.length_cons] at hlt ⊢
      omega
  next heq => rwa [integer_rest]

theorem doubled_rest_length (c : Char) (token : Token) (error : LexError) (start : Nat)
    (cs : List Char) : (doubled c token error start cs).rest.length ≤ cs.length := by
  unfold doubled
  split
  · simp [Piece.bad]
  · split <;> simp [Piece.good, Piece.bad]

/-- The text left by a step is shorter than the text it was given. -/
theorem next_rest_length (start : Nat) (c : Char) (cs : List Char) :
    (next start c cs).rest.length < (c :: cs).length := by
  unfold next
  have htail : cs.tail.length ≤ cs.length := by simp
  split
  · simp [Piece.skip]
  split
  · have := lineComment_rest_length (start + 2) cs.tail
    simp only [List.length_cons]; omega
  split
  · have := blockComment_rest_length start (start + 2) cs.tail
    simp only [List.length_cons]; omega
  split
  · have := doubled_rest_length '|' .or .loneBar start cs
    simp only [List.length_cons]; omega
  split
  · have := doubled_rest_length '&' .and .loneAmpersand start cs
    simp only [List.length_cons]; omega
  split
  · have := string_rest_length start (start + 1) cs [] []
    simp only [List.length_cons]; omega
  split
  · next h => exact number_rest_length start c cs h
  split
  · next h =>
    exact dropWhile_length_lt isWordChar c cs (by simp [isWordChar, h])
  split
  · simp [Piece.good]
  · split
    · simp only [Piece.good, List.length_cons]; omega
    · simp [Piece.good]
  · simp [Piece.bad]

/-- What has been read of a text, last first. -/
structure Found where
  lexemes : List Lexeme := []
  errors : List Diagnostic := []

/-- What has been read once a piece that started at `start` is added. -/
def Found.add (found : Found) (file start : Nat) (piece : Piece) : Found where
  lexemes :=
    match piece.token with
    | some token => ⟨token, ⟨file, start, piece.stop⟩⟩ :: found.lexemes
    | none => found.lexemes
  errors :=
    piece.errors.foldl (fun errors (error, first, last) => error.placed ⟨file, first, last⟩ :: errors)
      found.errors

/-- Reads a text to its end. -/
def all (file offset : Nat) (cs : List Char) (found : Found) : Found :=
  match cs with
  | [] => { found with lexemes := ⟨.eof, ⟨file, offset, offset⟩⟩ :: found.lexemes }
  | c :: cs =>
    let piece := next offset c cs
    all file piece.stop piece.rest (found.add file offset piece)
termination_by cs.length
decreasing_by exact next_rest_length offset c cs

end ScriptHost.Scan

namespace ScriptHost

/-- The tokens of a source text, the last one `eof`, or else everything wrong with its spelling. -/
def lex (source : String) (file : Nat) : Except (List Diagnostic) (List Lexeme) :=
  let found := Scan.all file 0 source.toList {}
  if found.errors.isEmpty then .ok found.lexemes.reverse else .error found.errors.reverse

end ScriptHost
