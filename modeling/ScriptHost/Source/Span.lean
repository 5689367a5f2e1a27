/-!
# Places in a source text

A unit is made of several source texts, numbered from zero. A span names one of them and two byte
offsets into its UTF-8 form. A reader of a message wants a line and a column instead, and counts
characters: `lineColumn` makes that step.
-/

set_option autoImplicit false

namespace ScriptHost

/-- A stretch of one source text: the number of the text, the first byte, and the byte after the
last. -/
structure Span where
  /-- The number of the source text within its unit. -/
  file : Nat
  /-- The byte offset of the first byte. -/
  start : Nat
  /-- The byte offset after the last byte. -/
  stop : Nat
deriving DecidableEq, Repr, Inhabited

namespace Span

/-- The span of something that has no place of its own. -/
def nowhere : Span := ⟨0, 0, 0⟩

/-- The least span that covers both, in the text of the first. -/
def merge (a b : Span) : Span :=
  ⟨a.file, min a.start b.start, max a.stop b.stop⟩

end Span

/-- The number of bytes that the characters take in UTF-8. -/
def byteWidth (cs : List Char) : Nat :=
  cs.foldl (fun n c => n + c.utf8Size) 0

/-- Walks to the first character that starts at `offset` or later, counting lines and columns. -/
def lineColumnFrom (offset : Nat) : List Char → Nat → Nat → Nat → Nat × Nat
  | [], _, line, column => (line, column)
  | c :: cs, place, line, column =>
    if offset ≤ place then (line, column)
    else if c = '\n' then lineColumnFrom offset cs (place + c.utf8Size) (line + 1) 1
    else lineColumnFrom offset cs (place + c.utf8Size) line (column + 1)

/-- The line and column, both counted from one, of a byte offset. An offset past the end is the
place after the last character. -/
def lineColumn (source : String) (offset : Nat) : Nat × Nat :=
  lineColumnFrom offset source.toList 0 1 1

end ScriptHost
