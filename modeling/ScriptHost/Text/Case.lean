import ScriptHost.Text.CaseTable
/-!
# Upper and lower case

A text is changed character by character. One character looks at its neighbours: the Greek capital
sigma becomes the final small sigma at the end of a word, that is behind a letter and not in front
of one.
-/

set_option autoImplicit false

namespace ScriptHost.Case

/-- The counterpart of a character in a list of ranges. -/
def shifted? (ranges : List Range) (n : Nat) : Option Nat :=
  (ranges.find? fun r => decide (r.first ≤ n) && decide (n ≤ r.last) && (n - r.first) % r.step == 0).map
    fun r => ((n : Int) + r.shift).toNat

/-- What a character becomes: its counterpart, or several characters, or itself. -/
def mapped (ranges : List Range) (sequences : List (Nat × List Nat)) (c : Char) : List Char :=
  match shifted? ranges c.toNat, sequences.lookup c.toNat with
  | some n, _ => [Char.ofNat n]
  | none, some ns => ns.map Char.ofNat
  | none, none => [c]

/-- The upper case of a character. -/
def upperChar (c : Char) : List Char :=
  mapped upperRanges upperSequences c

/-- The lower case of a character by itself. -/
def lowerChar (c : Char) : List Char :=
  mapped lowerRanges lowerSequences c

/-- Whether a character lies in one of the ranges. -/
def inRanges (ranges : List (Nat × Nat)) (c : Char) : Bool :=
  ranges.any fun r => decide (r.1 ≤ c.toNat) && decide (c.toNat ≤ r.2)

/-- Whether the first character that counts is one with case. -/
def startsCased (cs : List Char) : Bool :=
  match cs.dropWhile (inRanges ignorableRanges) with
  | [] => false
  | c :: _ => inRanges casedRanges c

/-- The capital sigma. -/
def capitalSigma : Char := 'Σ'

/-- The lower case of a text, given what stands before it, last character first. -/
def lowerAfter : List Char → List Char → List Char → List Char
  | _, [], done => done.reverse
  | before, c :: cs, done =>
    let lower :=
      if c = capitalSigma then
        if startsCased before && !startsCased cs then ['ς'] else ['σ']
      else lowerChar c
    lowerAfter (c :: before) cs (lower.reverse ++ done)

/-- The lower case of a text. -/
def lower (s : String) : String :=
  String.ofList (lowerAfter [] s.toList [])

/-- The upper case of a text. -/
def upper (s : String) : String :=
  String.ofList (s.toList.flatMap upperChar)

end ScriptHost.Case
