import ScriptHost.Number.Decimal
import ScriptHost.Value.Basic
/-!
# Placeholders

A template may hold numbers in braces, each of which stands for an argument. The template is read
once from left to right. A brace that opens no placeholder is a character like any other, and what
an argument brings in is not read again.
-/

set_option autoImplicit false

namespace ScriptHost.Placeholder

/-- Whether a character is a decimal digit. -/
def isDigit (c : Char) : Bool :=
  decide ('0' ≤ c) && decide (c ≤ '9')

/-- The digits of an index, which may have a plus sign in front. -/
def indexDigits : List Char → List Char
  | '+' :: digits => digits
  | digits => digits

/-- The index that a text spells. -/
def index? (cs : List Char) : Option Nat :=
  let digits := indexDigits cs
  if !digits.isEmpty && digits.all isDigit then some (Decimal.ofDigits digits) else none

/-- Whether a character does not close a placeholder. -/
def isInner (c : Char) : Bool := c != '}'

/-- What the placeholder at the front of a text, behind its opening brace, stands for, and the text
behind its closing brace. -/
def slot? (args : List Value) (cs : List Char) : Option (List Char × List Char) :=
  match cs.dropWhile isInner with
  | [] => none
  | _ :: after =>
    match (index? (cs.takeWhile isInner)).bind (args[·]?) with
    | some value => some (value.text.toList, after)
    | none => none

theorem slot?_rest_length {args : List Value} {cs shown after : List Char}
    (h : slot? args cs = some (shown, after)) : after.length < cs.length + 1 := by
  unfold slot? at h
  have hdrop : (cs.dropWhile isInner).length ≤ cs.length :=
    (List.dropWhile_sublist isInner).length_le
  split at h
  · cases h
  next c rest heq =>
    split at h
    next =>
      cases h
      rw [heq, List.length_cons] at hdrop
      omega
    next => cases h

/-- Fills in a text. What has been written comes last character first. -/
def fill (args : List Value) (done : List Char) (cs : List Char) : List Char :=
  match cs with
  | [] => done.reverse
  | c :: cs =>
    if c = '{' then
      match _found : slot? args cs with
      | some (shown, after) => fill args (shown.reverse ++ done) after
      | none => fill args (c :: done) cs
    else fill args (c :: done) cs
termination_by cs.length
decreasing_by
  · exact slot?_rest_length (by assumption)
  · exact Nat.lt_succ_self _
  · exact Nat.lt_succ_self _

/-- The template with its placeholders filled in. -/
def format (template : String) (args : List Value) : String :=
  String.ofList (fill args [] template.toList)

end ScriptHost.Placeholder
