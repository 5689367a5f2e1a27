import ScriptHost.Text.Blank
/-!
# Reports

A report gathers what a call has to say, every entry on a line of its own.
-/

set_option autoImplicit false

namespace ScriptHost

/-- What has been reported so far. -/
structure Report where
  text : String := ""
deriving DecidableEq, Repr, Inhabited

namespace Report

/-- An entry with a line break at its end, unless it has one. -/
def closeLine (entry : String) : String :=
  if entry.toList.getLast? == some '\n' then entry else entry ++ "\n"

/-- The report with one more entry. -/
def append (report : Report) (entry : String) : Report :=
  ⟨report.text ++ closeLine entry⟩

/-- The report with several more entries. -/
def appendAll (report : Report) (entries : List String) : Report :=
  entries.foldl append report

/-- What has been reported, without blanks around it. -/
def snapshot (report : Report) : String :=
  trim report.text

/-- Whether there is nothing but blanks in the report. -/
def isEmpty (report : Report) : Bool :=
  report.text.toList.all isBlank

end Report

end ScriptHost
