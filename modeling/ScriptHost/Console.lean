/-!
# The console

Everything that a run shows is written to a console, line by line. `Console` keeps the lines;
`HasConsole` is what a state of the host must offer for scripts to write lines to it.
-/

set_option autoImplicit false

namespace ScriptHost

/-- States to which lines can be written. -/
class HasConsole (σ : Type) where
  /-- The state with one more line written. -/
  writeLine : String → σ → σ

export HasConsole (writeLine)

/-- The lines written, the first one first. -/
structure Console where
  lines : Array String := #[]
deriving Inhabited

namespace Console

/-- All lines, joined by line breaks. -/
def text (console : Console) : String :=
  "\n".intercalate console.lines.toList

instance : HasConsole Console where
  writeLine line console := ⟨console.lines.push line⟩

end Console

namespace Banner

variable {σ : Type} [HasConsole σ]

/-- The width of the line of dashes around a run. -/
def separatorWidth : Nat := 29

/-- The number of empty lines in front of a run. -/
def blankLines : Nat := 10

/-- The line of dashes around a run. -/
def separator : String :=
  "".pushn '-' separatorWidth

/-- Writes lines one after the other. -/
def writeLines (lines : List String) (state : σ) : σ :=
  lines.foldl (fun state line => writeLine line state) state

/-- The lines in front of a run. -/
def loadingLines : List String :=
  List.replicate blankLines "" ++ [separator, "##LOADING"]

/-- The lines behind a run. -/
def doneLines : List String :=
  ["##DONE", separator]

/-- Announces a run. -/
def loading (state : σ) : σ :=
  writeLines loadingLines state

/-- Closes a run. -/
def done (state : σ) : σ :=
  writeLines doneLines state

/-- The line that shows diagnostics. -/
def errorReport (diagnostics : String) : String :=
  "ERROR!\n" ++ diagnostics

/-- Shows diagnostics. -/
def reportError (diagnostics : String) (state : σ) : σ :=
  writeLine (errorReport diagnostics) state

end Banner

end ScriptHost
