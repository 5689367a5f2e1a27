import ScriptHost.Markup.Attribute
import ScriptHost.Markup.Reference
import ScriptHost.Text.Blank
/-!
# Project manifests

A manifest lists the source files of a project: each element `Compile` names one in its attribute
`Include`. The elements may stand at any depth, and prefixes of names do not count.
-/

set_option autoImplicit false

namespace ScriptHost

/-- What can be wrong with a manifest. -/
inductive ManifestProblem where
  | markup (error : MarkupError)
  | badInclude (problem : ReferenceProblem)
  | emptyInclude
  | noElements
deriving DecidableEq, Repr

/-- The text of a problem. -/
def ManifestProblem.message : ManifestProblem → String
  | .markup error => s!"XML error at position {error.position}: {error.problem.message}"
  | .badInclude problem => s!"bad Include attribute: {problem.message}"
  | .emptyInclude => "empty Include attribute"
  | .noElements => "no XML elements found"

namespace Manifest

/-- The path that the value of an attribute names: without blanks around it, and with slashes that
lean forward. -/
def pathOf (value : List Char) : Except ManifestProblem String :=
  match Markup.dereference value with
  | .error problem => .error (.badInclude problem)
  | .ok cs =>
    let path := (trimChars cs).map fun c => if c == '\\' then '/' else c
    if path.isEmpty then .error .emptyInclude else .ok (String.ofList path)

/-- The values of the attributes that name source files. -/
def includeValues (tag : Tag) : List (List Char) :=
  tag.attributes.filterMap fun item =>
    match item with
    | .ok found => if localName found.name == "Include".toList then some found.value else none
    | .error _ => none

/-- The tag of an element, if the event is one. -/
def tag? : MarkupEvent → Option Tag
  | .start tag => some tag
  | .empty tag => some tag
  | _ => none

/-- The values that name source files, in the order of the text. -/
def allValues (events : List MarkupEvent) : List (List Char) :=
  (events.filterMap tag?).flatMap fun tag =>
    if localName tag.name == "Compile".toList then includeValues tag else []

/-- The source files that a manifest lists, in the order of the text. -/
def parse (text : String) : Except ManifestProblem (List String) := do
  let (events, error?) := Markup.scan text
  let paths ← (allValues events).mapM pathOf
  if let some error := error? then .error (.markup error)
  if events.any fun event => (tag? event).isSome then return paths else .error .noElements

end Manifest

end ScriptHost
