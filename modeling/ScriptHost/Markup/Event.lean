import ScriptHost.Source.Span
/-!
# Markup

A text with tags is read as a row of events. The reader checks what it must to find its way: that
every piece of markup is closed, and that an end tag names the element that was opened last.
Elements that are still open where the text ends are let pass.

`scan` gives the events up to the first error, and that error.
-/

set_option autoImplicit false

namespace ScriptHost

/-- What can be wrong with markup. -/
inductive MarkupProblem where
  | unclosedTag
  | unclosedComment
  | unclosedData
  | unclosedInstruction
  | unclosedDoctype
  /-- An exclamation mark that begins nothing known. -/
  | unknownMarkup
  | namelessDoctype
  /-- An end tag for another element than the one opened last. -/
  | wrongEnd (expected found : String)
  /-- An end tag where no element is open. -/
  | strayEnd (found : String)
deriving DecidableEq, Repr, Inhabited

/-- The text of a problem. -/
def MarkupProblem.message : MarkupProblem → String
  | .unclosedTag => "syntax error: tag not closed: `>` not found before end of input"
  | .unclosedComment => "syntax error: comment not closed: `-->` not found before end of input"
  | .unclosedData => "syntax error: CDATA not closed: `]]>` not found before end of input"
  | .unclosedInstruction =>
    "syntax error: processing instruction or xml declaration not closed: `?>` not found before end of input"
  | .unclosedDoctype => "syntax error: DOCTYPE not closed: `>` not found before end of input"
  | .unknownMarkup => "syntax error: unknown or missed symbol in markup"
  | .namelessDoctype =>
    "ill-formed document: `<!DOCTYPE>` declaration does not contain a name of a document type"
  | .wrongEnd expected found =>
    s!"ill-formed document: expected `</{expected}>`, but `</{found}>` was found"
  | .strayEnd found => s!"ill-formed document: close tag `</{found}>` does not match any open tag"

/-- A problem and the byte at which it is. -/
structure MarkupError where
  position : Nat
  problem : MarkupProblem
deriving DecidableEq, Repr

/-- A start tag or the tag of an empty element. -/
structure Tag where
  name : List Char
  /-- What stands behind the name. -/
  rest : List Char
deriving DecidableEq, Repr, Inhabited

/-- A piece of markup. -/
inductive MarkupEvent where
  | start (tag : Tag)
  | empty (tag : Tag)
  | close (name : List Char)
  /-- A comment, an instruction, a declaration or bare data. -/
  | other
deriving DecidableEq, Repr, Inhabited

namespace Markup

/-- Whether a character is a blank between the parts of a tag. -/
def isSpace (c : Char) : Bool :=
  c == ' ' || c == '\n' || c == '\r' || c == '\t'

/-- The characters in front of the first `>` at which `closes` holds of those seen, in reverse, and
the characters behind it. -/
def untilClose (closes : List Char → Bool) (seen : List Char) :
    List Char → Option (List Char × List Char)
  | [] => none
  | c :: rest =>
    if c == '>' && closes seen then some (seen.reverse, rest)
    else untilClose closes (c :: seen) rest

/-- The characters in front of the `>` that is outside of all inner brackets, and the characters
behind it. -/
def untilBalanced (depth : Nat) (seen : List Char) : List Char → Option (List Char × List Char)
  | [] => none
  | c :: rest =>
    match c, depth with
    | '>', 0 => some (seen.reverse, rest)
    | '>', outer + 1 => untilBalanced outer (c :: seen) rest
    | '<', _ => untilBalanced (depth + 1) (c :: seen) rest
    | _, _ => untilBalanced depth (c :: seen) rest

/-- The characters in front of the first `>` outside of quotation marks, and the characters behind
it. -/
def untilUnquoted (quote : Option Char) (seen : List Char) :
    List Char → Option (List Char × List Char)
  | [] => none
  | c :: rest =>
    match quote with
    | none =>
      if c == '>' then some (seen.reverse, rest)
      else untilUnquoted (if c == '"' || c == '\'' then some c else none) (c :: seen) rest
    | some mark => untilUnquoted (if c == mark then none else some mark) (c :: seen) rest

/-- Whether these characters, told in reverse from the exclamation mark on, make up a comment. -/
def closesComment : List Char → Bool
  | '-' :: '-' :: _ :: _ :: _ :: _ => true
  | _ => false

/-- Whether these characters, told in reverse, end bare data. -/
def closesData : List Char → Bool
  | ']' :: ']' :: _ => true
  | _ => false

/-- Whether these characters, told in reverse, end an instruction. -/
def closesInstruction : List Char → Bool
  | '?' :: _ => true
  | _ => false

/-- Whether a text begins with a word, in letters of either case. -/
def beginsWith (word cs : List Char) : Bool :=
  (cs.take word.length).map Char.toUpper == word

/-- A reader in the middle of a text. -/
structure Scanner where
  rest : List Char
  /-- The number of bytes read. -/
  offset : Nat
  /-- The names of the open elements, the innermost first. -/
  opened : List (List Char)

/-- What became of a piece of markup. -/
abbrev Read := Except MarkupError (MarkupEvent × Scanner)

/-- The reader behind a piece of markup with these characters and a bracket at its end. -/
def Scanner.past (s : Scanner) (content rest : List Char) : Scanner :=
  { s with rest, offset := s.offset + byteWidth content + 1 }

/-- An error at the bracket that begins the markup. -/
def Scanner.refuse (s : Scanner) (problem : MarkupProblem) : Read :=
  .error ⟨s.offset - 1, problem⟩

/-- Reads markup that begins with an exclamation mark. -/
def readBang (s : Scanner) : Read :=
  match s.rest with
  | '!' :: '-' :: _ =>
    match untilClose closesComment [] s.rest with
    | some (content, rest) =>
      if content.take 3 == ['!', '-', '-'] then .ok (.other, s.past content rest)
      else s.refuse .unclosedComment
    | none => s.refuse .unclosedComment
  | '!' :: '[' :: _ =>
    match untilClose closesData [] s.rest with
    | some (content, rest) =>
      if content.take 8 == "![CDATA[".toList then .ok (.other, s.past content rest)
      else s.refuse .unclosedData
    | none => s.refuse .unclosedData
  | '!' :: c :: _ =>
    if c == 'D' || c == 'd' then
      match untilBalanced 0 [] s.rest with
      | some (content, rest) =>
        if !beginsWith "!DOCTYPE".toList content then s.refuse .unclosedDoctype
        else if (content.drop 8).all isSpace then
          .error ⟨(s.past content rest).offset - 1, .namelessDoctype⟩
        else .ok (.other, s.past content rest)
      | none => s.refuse .unclosedDoctype
    else s.refuse .unknownMarkup
  | _ => s.refuse .unknownMarkup

/-- Reads an instruction. -/
def readInstruction (s : Scanner) : Read :=
  match untilClose closesInstruction [] s.rest with
  | some (content, rest) =>
    if 1 < content.length then .ok (.other, s.past content rest)
    else s.refuse .unclosedInstruction
  | none => s.refuse .unclosedInstruction

/-- The name in an end tag: blanks behind it do not count, unless there is nothing else. -/
def endName (content : List Char) : List Char :=
  let name := (content.reverse.dropWhile isSpace).reverse
  if name.isEmpty then content else name

/-- Reads an end tag. -/
def readEnd (s : Scanner) : Read :=
  match untilUnquoted none [] s.rest with
  | none => s.refuse .unclosedTag
  | some (content, rest) =>
    let name := endName content.tail
    match s.opened with
    | [] => s.refuse (.strayEnd (String.ofList name))
    | expected :: opened =>
      if name == expected then .ok (.close name, { s.past content rest with opened })
      else s.refuse (.wrongEnd (String.ofList expected) (String.ofList name))

/-- The tag with this text. -/
def tagOf (content : List Char) : Tag where
  name := content.takeWhile (!isSpace ·)
  rest := content.dropWhile (!isSpace ·)

/-- Reads a start tag or the tag of an empty element. -/
def readStart (s : Scanner) : Read :=
  match untilUnquoted none [] s.rest with
  | none => s.refuse .unclosedTag
  | some (content, rest) =>
    let after := s.past content rest
    if content.getLast? == some '/' then .ok (.empty (tagOf content.dropLast), after)
    else
      let tag := tagOf content
      .ok (.start tag, { after with opened := tag.name :: s.opened })

/-- Reads a piece of markup behind its bracket. -/
def readMarkup (s : Scanner) : Read :=
  match s.rest with
  | [] => s.refuse .unclosedTag
  | '!' :: _ => readBang s
  | '/' :: _ => readEnd s
  | '?' :: _ => readInstruction s
  | _ => readStart s

/-- The reader behind the next opening bracket. -/
def skipText (s : Scanner) : Option Scanner :=
  match s.rest.dropWhile (· != '<') with
  | [] => none
  | _ :: rest =>
    some { s with rest, offset := s.offset + byteWidth (s.rest.takeWhile (· != '<')) + 1 }

/-- Reads markup to the end, at most `fuel` pieces. -/
def scanFrom : Nat → Array MarkupEvent → Scanner → List MarkupEvent × Option MarkupError
  | 0, found, _ => (found.toList, none)
  | fuel + 1, found, s =>
    match skipText s with
    | none => (found.toList, none)
    | some s =>
      match readMarkup s with
      | .error e => (found.toList, some e)
      | .ok (event, s) => scanFrom fuel (found.push event) s

/-- A text without the mark that tells the order of its bytes. -/
def dropOrderMark : List Char → List Char
  | '\uFEFF' :: rest => rest
  | cs => cs

/-- The events of a text up to the first error, and that error. Every piece of markup takes at least
one character, so the length of the text bounds their number. -/
def scan (text : String) : List MarkupEvent × Option MarkupError :=
  let cs := dropOrderMark text.toList
  scanFrom (cs.length + 1) #[] ⟨cs, 0, []⟩

end Markup

end ScriptHost
