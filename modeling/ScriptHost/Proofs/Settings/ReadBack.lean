import Mathlib
import ScriptHost.Settings.Format
/-!
# Settings that are read back

What is printed of a JSON value is read as that value (`Json.read?_pretty`), if its numbers are
natural numbers and its strings have texts. So settings are read as they have been written:
`Settings.ofText?_toText`.
-/

set_option autoImplicit false

namespace ScriptHost

namespace Json

variable {cs rest : List Char} {done : List Piece} {c : Char}

/-! ## Blanks -/

theorem skipSpace_of_not (h : isSpace c = false) : skipSpace (c :: cs) = c :: cs :=
  List.dropWhile_cons_of_neg (Bool.not_eq_true _ ▸ h)

theorem toList_lineStart (level : Nat) :
    (lineStart level).toList = '\n' :: List.replicate (2 * level) ' ' := by
  have hblanks : ∀ n, (Nat.repeat (fun s => s.push ' ') n "\n").toList =
      '\n' :: List.replicate n ' ' := by
    intro n
    induction n with
    | zero => rfl
    | succ n ih => rw [Nat.repeat, String.toList_push, ih, List.replicate_succ', List.cons_append]
  rw [lineStart, String.pushn_eq_repeat_push, hblanks]

theorem skipSpace_lineStart (level : Nat) (cs : List Char) :
    skipSpace ((lineStart level).toList ++ cs) = skipSpace cs := by
  refine List.dropWhile_append_of_pos fun c hc => ?_
  rw [toList_lineStart] at hc
  rcases List.mem_cons.mp hc with rfl | hblank
  · rfl
  · rw [List.eq_of_mem_replicate hblank]
    rfl

theorem skipSpace_skipSpace (cs : List Char) : skipSpace (skipSpace cs) = skipSpace cs :=
  List.dropWhile_idempotent _ _

theorem readValue_skipSpace (fuel : Nat) (cs : List Char) :
    readValue fuel (skipSpace cs) = readValue fuel cs := by
  cases fuel with
  | zero => rw [readValue, readValue]
  | succ fuel => rw [readValue, readValue, skipSpace_skipSpace]

theorem readItems_skipSpace (fuel : Nat) (done : List Json) (cs : List Char) :
    readItems fuel done (skipSpace cs) = readItems fuel done cs := by
  cases fuel with
  | zero => rw [readItems, readItems]
  | succ fuel => rw [readItems, readItems, readValue_skipSpace]

theorem readItems_lineStart (fuel level : Nat) (done : List Json) (cs : List Char) :
    readItems fuel done ((lineStart level).toList ++ cs) = readItems fuel done cs := by
  rw [← readItems_skipSpace, skipSpace_lineStart, readItems_skipSpace]

theorem readKey_skipSpace (cs : List Char) : readKey (skipSpace cs) = readKey cs := by
  rw [readKey, readKey, skipSpace_skipSpace]

theorem readMembers_skipSpace (fuel : Nat) (done : List (Option String × Json)) (cs : List Char) :
    readMembers fuel done (skipSpace cs) = readMembers fuel done cs := by
  cases fuel with
  | zero => rw [readMembers, readMembers]
  | succ fuel => rw [readMembers, readMembers, readKey_skipSpace]

theorem readMembers_lineStart (fuel level : Nat) (done : List (Option String × Json))
    (cs : List Char) :
    readMembers fuel done ((lineStart level).toList ++ cs) = readMembers fuel done cs := by
  rw [← readMembers_skipSpace, skipSpace_lineStart, readMembers_skipSpace]

/-! ## Strings -/

/-- A piece is what is read of the escape of a character, and stands for the character. -/
structure Spells (p : Piece) (c : Char) : Prop where
  reads : ∀ done rest, readPieces done (escape c ++ rest) = readPieces (p :: done) rest
  joins : ∀ pieces, joinPieces (p :: pieces) = (joinPieces pieces).map (c :: ·)

theorem spells_char (h : ∀ done rest, readPieces done (escape c ++ rest) =
    readPieces (.char c :: done) rest) : Spells (.char c) c :=
  ⟨h, fun _ => rfl⟩

theorem hexValue?_hexDigit : ∀ n < 16, hexValue? (Quoted.hexDigit n) = some n := by
  decide

theorem readPieces_control (h : c.toNat < 32) (done : List Piece) (rest : List Char) :
    readPieces done ('\\' :: 'u' :: '0' :: '0' :: Quoted.hexDigit (c.toNat / 16) ::
      Quoted.hexDigit (c.toNat % 16) :: rest) = readPieces (.unit c.toNat :: done) rest := by
  have hunit : unit? '0' '0' (Quoted.hexDigit (c.toNat / 16)) (Quoted.hexDigit (c.toNat % 16)) =
      some c.toNat := by
    have hzero : hexValue? '0' = some 0 := rfl
    simp only [unit?, hzero, hexValue?_hexDigit _ (show c.toNat / 16 < 16 by omega),
      hexValue?_hexDigit _ (show c.toNat % 16 < 16 by omega)]
    change some _ = _
    congr 1
    omega
  rw [readPieces, hunit]

theorem joinPieces_control (h : c.toNat < 32) (pieces : List Piece) :
    joinPieces (.unit c.toNat :: pieces) = (joinPieces pieces).map (c :: ·) := by
  have hhigh : isHighHalf c.toNat = false := by
    simp [isHighHalf]
    omega
  have hlow : isLowHalf c.toNat = false := by
    simp [isLowHalf]
    omega
  rw [joinPieces.eq_def]
  simp only [hhigh, hlow, Bool.false_eq_true, if_false, Char.ofNat_toNat]

theorem readPieces_plain (hquote : c ≠ '"') (hslash : c ≠ '\\') (h : ¬ c.toNat < 32)
    (done : List Piece) (rest : List Char) :
    readPieces done (c :: rest) = readPieces (.char c :: done) rest := by
  rw [readPieces.eq_def]
  split <;> simp_all

/-- Every character is spelled by its escape. -/
theorem exists_spells (c : Char) : ∃ p, Spells p c := by
  by_cases hspecial : c ∈ ['"', '\\', '\x08', '\x0c', '\n', '\r', '\t']
  · refine ⟨_, spells_char fun done rest => ?_⟩
    simp only [List.mem_cons, List.not_mem_nil, or_false] at hspecial
    rcases hspecial with rfl | rfl | rfl | rfl | rfl | rfl | rfl <;> rfl
  · have hescape : escape c = if c.toNat < 32 then
        ['\\', 'u', '0', '0', Quoted.hexDigit (c.toNat / 16), Quoted.hexDigit (c.toNat % 16)]
        else [c] := by
      unfold escape
      split <;> first | rfl | simp at hspecial
    by_cases hcontrol : c.toNat < 32
    · rw [if_pos hcontrol] at hescape
      exact ⟨.unit c.toNat, fun done rest => hescape ▸ readPieces_control hcontrol done rest,
        joinPieces_control hcontrol⟩
    · rw [if_neg hcontrol] at hescape
      refine ⟨_, spells_char fun done rest => ?_⟩
      rw [hescape]
      exact readPieces_plain (by rintro rfl; simp at hspecial) (by rintro rfl; simp at hspecial)
        hcontrol done rest

theorem readPieces_escaped (text rest : List Char) (done : List Piece) :
    ∃ pieces, readPieces done (text.flatMap escape ++ '"' :: rest) =
      some (done.reverse ++ pieces, rest) ∧ joinPieces pieces = some text := by
  induction text generalizing done with
  | nil => exact ⟨[], by rw [List.append_nil]; rfl, rfl⟩
  | cons c text ih =>
    obtain ⟨p, hp⟩ := exists_spells c
    obtain ⟨pieces, hread, hjoin⟩ := ih (p :: done)
    refine ⟨p :: pieces, ?_, ?_⟩
    · rw [List.flatMap_cons, List.append_assoc, hp.reads, hread, List.reverse_cons,
        List.append_assoc, List.singleton_append]
    · rw [hp.joins, hjoin, Option.map_some]

/-- The characters of a string behind its first quotation mark. -/
def quoted (text : String) : List Char :=
  text.toList.flatMap escape ++ ['"']

theorem toList_quote (text : String) : (quote text).toList = '"' :: quoted text := by
  simp [quote, quoted]

theorem readString_quoted (text : String) (rest : List Char) :
    readString (quoted text ++ rest) = some (some text, rest) := by
  obtain ⟨pieces, hread, hjoin⟩ := readPieces_escaped text.toList rest []
  rw [readString, quoted, List.append_assoc, List.singleton_append, hread, Option.map_some]
  simp [hjoin]

/-! ## Numbers -/

/-- What may stand behind a value: nothing, a comma, or the next line. -/
def Stops (cs : List Char) : Prop :=
  ∀ c ∈ cs.head?, c = ',' ∨ c = '\n'

theorem Stops.isDigit (h : Stops (c :: cs)) : c.isDigit = false := by
  rcases h c rfl with rfl | rfl <;> rfl

theorem toDigits_head {n : Nat} : ∀ {cs : List Char}, Nat.toDigits 10 n = '0' :: cs → n = 0 := by
  induction n using Nat.strongRecOn with
  | ind n ih =>
    intro cs h
    rw [Nat.toDigits_eq_if (by decide)] at h
    split at h
    · rename_i hsmall
      have hdigit : ∀ m < 10, m.digitChar = '0' → m = 0 := by decide
      exact hdigit n hsmall (List.cons.inj h).1
    · obtain ⟨c, digits, hdigits⟩ :=
        List.exists_cons_of_ne_nil (Nat.toDigits_ne_nil (n := n / 10) (b := 10))
      rw [hdigits, List.cons_append] at h
      obtain ⟨rfl, -⟩ := List.cons.inj h
      have := ih (n / 10) (by omega) hdigits
      omega

theorem takeWhile_isDigit {digits : List Char} (hdigits : ∀ c ∈ digits, c.isDigit = true)
    (hrest : Stops rest) : (digits ++ rest).takeWhile Char.isDigit = digits ∧
      (digits ++ rest).dropWhile Char.isDigit = rest := by
  rw [List.takeWhile_append_of_pos hdigits, List.dropWhile_append_of_pos hdigits]
  cases rest with
  | nil => simp
  | cons c rest => simp [hrest.isDigit]

theorem readNumber_toString (n : Nat) (hrest : Stops rest) :
    readNumber ((toString n).toList ++ rest) = some (.number (toString n), rest) := by
  have hdigits : ∀ c ∈ Nat.toDigits 10 n, c.isDigit = true := fun c hc =>
    Nat.isDigit_of_mem_toDigits (by decide) (by decide) hc
  obtain ⟨htake, hdrop⟩ := takeWhile_isDigit hdigits hrest
  have hread : readDigits (Nat.toDigits 10 n ++ rest) = some (Nat.toDigits 10 n, rest) := by
    rw [readDigits, htake, hdrop]
    simp [Nat.toDigits_ne_nil]
  have hwhole : readWhole (Nat.toDigits 10 n ++ rest) = some (Nat.toDigits 10 n, rest) := by
    rw [readWhole, hread]
    split
    · rename_i next more other hzero
      obtain ⟨hdigits, -⟩ := Prod.mk.inj (Option.some.inj hzero)
      obtain rfl := toDigits_head hdigits
      cases hdigits
    · rfl
  have hfraction : readFraction rest = some ([], rest) := by
    unfold readFraction
    split
    · rcases hrest _ rfl with hstop | hstop <;> cases hstop
    · rfl
  have hexponent : readExponent rest = some ([], rest) := by
    unfold readExponent
    split
    · rename_i c rest
      rcases hrest c rfl with rfl | rfl <;> rfl
    · rfl
  have hsign : ∀ cs, Nat.toDigits 10 n ++ rest ≠ '-' :: cs := by
    intro cs h
    obtain ⟨c, digits, hcons⟩ := List.exists_cons_of_ne_nil (Nat.toDigits_ne_nil (n := n) (b := 10))
    rw [hcons, List.cons_append] at h
    have hminus := hdigits c (hcons ▸ List.mem_cons_self)
    rw [(List.cons.inj h).1] at hminus
    cases hminus
  rw [Nat.toString_eq_repr, Nat.toList_repr, readNumber, hwhole]
  · simp only [bind, Option.bind, hfraction, hexponent, List.nil_append, List.append_nil]
    rw [Nat.repr_eq_ofList_toDigits]
    rfl
  · exact hsign

/-! ## Values -/

/-- What is printed of a value is read as the value. -/
def ReadsBack (json : Json) : Prop :=
  ∀ {level fuel rest}, (print level json).toList.length ≤ fuel → Stops rest →
    readValue (fuel + 1) ((print level json).toList ++ rest) = some (json, rest)

theorem readsBack_null : ReadsBack .null := by
  intro level fuel rest hfuel hrest
  change readValue (fuel + 1) ("null".toList ++ rest) = _
  rfl

theorem readsBack_bool (value : Bool) : ReadsBack (.bool value) := by
  intro level fuel rest hfuel hrest
  change readValue (fuel + 1) ((if value then "true" else "false").toList ++ rest) = _
  cases value <;> rfl

theorem readsBack_string (text : String) : ReadsBack (.string (some text)) := by
  intro level fuel rest hfuel hrest
  change readValue (fuel + 1) ((quote text).toList ++ rest) = _
  rw [toList_quote, List.cons_append]
  exact congrArg (Option.map fun found => (Json.string found.1, found.2))
    (readString_quoted text rest)

theorem readValue_isDigit {fuel : Nat} (h : c.isDigit = true) :
    readValue (fuel + 1) (c :: cs) = readNumber (c :: cs) := by
  have hspace : isSpace c = false := by
    by_contra hblank
    simp only [isSpace, Bool.not_eq_false, Bool.or_eq_true, beq_iff_eq] at hblank
    rcases hblank with ((rfl | rfl) | rfl) | rfl <;> cases h
  rw [readValue, skipSpace_of_not hspace]
  split <;> simp_all

theorem readsBack_number (n : Nat) : ReadsBack (.number (toString n)) := by
  intro level fuel rest hfuel hrest
  obtain ⟨c, digits, hdigits⟩ := List.exists_cons_of_ne_nil (Nat.toDigits_ne_nil (n := n) (b := 10))
  have htext : (toString n).toList = c :: digits := by
    rw [Nat.toString_eq_repr, Nat.toList_repr, hdigits]
  have hc : c.isDigit = true :=
    Nat.isDigit_of_mem_toDigits (b := 10) (n := n) (by decide) (by decide)
      (hdigits ▸ List.mem_cons_self)
  change readValue (fuel + 1) ((toString n).toList ++ rest) = _
  rw [← readNumber_toString n hrest, htext, List.cons_append, readValue_isDigit hc]

/-! ## Rows of values -/

theorem stops_lineStart (level : Nat) (cs : List Char) :
    Stops ((lineStart level).toList ++ cs) := by
  rw [toList_lineStart]
  rintro _ ⟨⟩
  exact .inr rfl

theorem stops_nil : Stops [] := by
  simp [Stops]

theorem stops_comma (cs : List Char) : Stops (',' :: cs) := by
  rintro _ ⟨⟩
  exact .inl rfl

/-- What stands between two parts of a block. -/
def between (level : Nat) : String :=
  "," ++ lineStart level

theorem toList_between (level : Nat) :
    (between level).toList = ',' :: (lineStart level).toList := by
  simp [between]

/-- Items are read up to the bracket behind them. -/
theorem readItems_print {items : List Json} (h : ∀ item ∈ items, ReadsBack item)
    (hne : items ≠ []) :
    ∀ {level outer fuel done rest},
      ((between level).intercalate (printItems level items)).toList.length + 2 ≤ fuel →
      readItems fuel done (((between level).intercalate (printItems level items)).toList ++
        ((lineStart outer).toList ++ ']' :: rest)) =
          some (.array (done.reverse ++ items), rest) := by
  induction items with
  | nil => exact absurd rfl hne
  | cons item items ih =>
    intro level outer fuel done rest hfuel
    obtain ⟨fuel, rfl⟩ := Nat.exists_eq_add_of_le' (Nat.le_trans (Nat.le_add_left 2 _) hfuel)
    obtain ⟨hitem, hitems⟩ := List.forall_mem_cons.mp h
    rw [readItems]
    cases items with
    | nil =>
      rw [printItems, printItems, String.intercalate_singleton] at hfuel ⊢
      rw [hitem (by omega) (stops_lineStart _ _)]
      dsimp only
      rw [skipSpace_lineStart, skipSpace_of_not rfl]
      simp
    | cons next items =>
      rw [printItems, printItems, String.intercalate_cons_cons, ← printItems] at hfuel ⊢
      simp only [String.toList_append, List.append_assoc, toList_between, List.cons_append,
        List.length_append, List.length_cons] at hfuel ⊢
      rw [hitem (by omega) (stops_comma _)]
      dsimp only
      rw [skipSpace_of_not rfl]
      change readItems (fuel + 1) (item :: done) (_ ++ _) = _
      rw [readItems_lineStart, ih hitems (by simp) (by omega)]
      simp

theorem toList_block (opening closing : String) (level : Nat) {parts : List String}
    (hne : parts ≠ []) :
    (block opening closing level parts).toList = opening.toList ++
      ((lineStart (level + 1)).toList ++ (((between (level + 1)).intercalate parts).toList ++
        ((lineStart level).toList ++ closing.toList))) := by
  rw [block, if_neg (by simpa using hne)]
  simp [between]

theorem toList_block_nil (opening closing : String) (level : Nat) :
    (block opening closing level []).toList = opening.toList ++ closing.toList := by
  rw [block, if_pos List.isEmpty_nil, String.toList_append]

theorem readItems_bracket (fuel : Nat) (done : List Json) (cs : List Char) :
    readItems fuel done (']' :: cs) = none := by
  have hvalue : ∀ fuel, readValue fuel (']' :: cs) = none := by
    intro fuel
    cases fuel <;> rfl
  cases fuel with
  | zero => rw [readItems]
  | succ fuel => rw [readItems, hvalue]

/-- An array is read as its items, if it has any. -/
theorem readValue_items {fuel : Nat} {found : Json × List Char}
    (h : readItems fuel [] cs = some found) : readValue (fuel + 1) ('[' :: cs) = some found := by
  rw [readValue, skipSpace_of_not rfl]
  simp only []
  split
  · rename_i hbracket
    rw [← readItems_skipSpace, hbracket, readItems_bracket] at h
    cases h
  · rw [readItems_skipSpace, h]

theorem readsBack_array {items : List Json} (h : ∀ item ∈ items, ReadsBack item) :
    ReadsBack (.array items) := by
  intro level fuel rest hfuel hrest
  by_cases hne : items = []
  · rw [hne, print, printItems, toList_block_nil]
    rfl
  · have hparts : printItems (level + 1) items ≠ [] := by
      cases items with
      | nil => exact absurd rfl hne
      | cons item items => simp [printItems]
    have hopening : "[".toList.length = 1 := rfl
    have hstart : 1 ≤ (lineStart (level + 1)).toList.length := by
      rw [toList_lineStart]
      exact Nat.le_add_left 1 _
    rw [print, toList_block _ _ _ hparts] at hfuel ⊢
    simp only [List.append_assoc, List.length_append] at hfuel ⊢
    have hread : readItems fuel []
        (((between (level + 1)).intercalate (printItems (level + 1) items)).toList ++
          ((lineStart level).toList ++ ']' :: rest)) = some (.array items, rest) :=
      readItems_print h hne (by omega)
    exact readValue_items ((readItems_lineStart ..).trans hread)

/-! ## Members -/

/-- Members with their names, as they stand in an object. -/
def named (members : List (String × Json)) : List (Option String × Json) :=
  members.map fun m => (some m.1, m.2)

theorem readKey_quoted (key : String) (cs : List Char) :
    readKey ('"' :: (quoted key ++ ':' :: cs)) = some (some key, cs) := by
  rw [readKey, skipSpace_of_not rfl]
  simp only []
  rw [readString_quoted]
  rfl

theorem toList_member (key : String) (text : String) :
    (quote key ++ ": " ++ text).toList = '"' :: (quoted key ++ ':' :: ' ' :: text.toList) := by
  simp [toList_quote]

theorem printMembers_named (level : Nat) (m : String × Json) (members : List (String × Json)) :
    printMembers level (named (m :: members)) =
      (quote m.1 ++ ": " ++ print level m.2) :: printMembers level (named members) := by
  rw [named, List.map_cons, printMembers]
  rfl

/-- Members are read up to the brace behind them. -/
theorem readMembers_print {members : List (String × Json)} (h : ∀ m ∈ members, ReadsBack m.2)
    (hne : members ≠ []) :
    ∀ {level outer fuel done rest},
      ((between level).intercalate (printMembers level (named members))).toList.length + 2 ≤ fuel →
      readMembers fuel done
        (((between level).intercalate (printMembers level (named members))).toList ++
          ((lineStart outer).toList ++ '\x7d' :: rest)) =
            some (.object (done.reverse ++ named members), rest) := by
  induction members with
  | nil => exact absurd rfl hne
  | cons m members ih =>
    intro level outer fuel done rest hfuel
    obtain ⟨key, value⟩ := m
    obtain ⟨fuel, rfl⟩ := Nat.exists_eq_add_of_le' (Nat.le_trans (Nat.le_add_left 2 _) hfuel)
    have hvalue : ReadsBack value := h _ List.mem_cons_self
    have hmembers := (List.forall_mem_cons.mp h).2
    have hblank (cs : List Char) : readValue (fuel + 1) (' ' :: cs) = readValue (fuel + 1) cs := by
      rw [← readValue_skipSpace, ← readValue_skipSpace _ cs]
      rfl
    rw [readMembers]
    cases members with
    | nil =>
      rw [printMembers_named, named, List.map_nil, printMembers, String.intercalate_singleton,
        toList_member] at hfuel ⊢
      simp only [List.cons_append, List.append_assoc, List.length_append,
        List.length_cons] at hfuel ⊢
      rw [readKey_quoted]
      dsimp only
      rw [hblank, hvalue (by omega) (stops_lineStart _ _)]
      dsimp only
      rw [skipSpace_lineStart, skipSpace_of_not rfl]
      simp [named]
    | cons next members =>
      rw [printMembers_named, printMembers_named, String.intercalate_cons_cons,
        ← printMembers_named, String.toList_append, String.toList_append, toList_member,
        toList_between] at hfuel ⊢
      simp only [List.cons_append, List.append_assoc, List.length_append,
        List.length_cons] at hfuel ⊢
      rw [readKey_quoted]
      dsimp only
      rw [hblank, hvalue (by omega) (stops_comma _)]
      dsimp only
      rw [skipSpace_of_not rfl]
      change readMembers (fuel + 1) ((some key, value) :: done) (_ ++ _) = _
      rw [readMembers_lineStart, ih hmembers (by simp) (by omega)]
      simp [named]

theorem readMembers_brace (fuel : Nat) (done : List (Option String × Json)) (cs : List Char) :
    readMembers fuel done ('\x7d' :: cs) = none := by
  cases fuel with
  | zero => rw [readMembers]
  | succ fuel =>
    rw [readMembers, readKey]
    rfl

/-- An object is read as its members, if it has any. -/
theorem readValue_members {fuel : Nat} {found : Json × List Char}
    (h : readMembers fuel [] cs = some found) :
    readValue (fuel + 1) ('\x7b' :: cs) = some found := by
  rw [readValue, skipSpace_of_not rfl]
  simp only []
  split
  · rename_i hbrace
    rw [← readMembers_skipSpace, hbrace, readMembers_brace] at h
    cases h
  · rw [readMembers_skipSpace, h]

theorem readsBack_object {members : List (String × Json)} (h : ∀ m ∈ members, ReadsBack m.2) :
    ReadsBack (.object (named members)) := by
  intro level fuel rest hfuel hrest
  by_cases hne : members = []
  · rw [hne, named, List.map_nil, print, printMembers, toList_block_nil]
    rfl
  · have hparts : printMembers (level + 1) (named members) ≠ [] := by
      cases members with
      | nil => exact absurd rfl hne
      | cons m members => simp [printMembers_named]
    have hopening : "\x7b".toList.length = 1 := rfl
    have hstart : 1 ≤ (lineStart (level + 1)).toList.length := by
      rw [toList_lineStart]
      exact Nat.le_add_left 1 _
    rw [print, toList_block _ _ _ hparts] at hfuel ⊢
    simp only [List.append_assoc, List.length_append] at hfuel ⊢
    have hread : readMembers fuel []
        (((between (level + 1)).intercalate (printMembers (level + 1) (named members))).toList ++
          ((lineStart level).toList ++ '\x7d' :: rest)) = some (.object (named members), rest) :=
      readMembers_print h hne (by omega)
    exact readValue_members ((readMembers_lineStart ..).trans hread)

/-! ## Whole texts -/

/-- Values that are printed so that they can be read: their numbers are natural numbers, and their
strings have texts. -/
inductive Legible : Json → Prop
  | null : Legible .null
  | bool (value : Bool) : Legible (.bool value)
  | number (n : Nat) : Legible (.number (toString n))
  | string (text : String) : Legible (.string (some text))
  | array {items : List Json} (h : ∀ item ∈ items, Legible item) : Legible (.array items)
  | object {members : List (String × Json)} (h : ∀ m ∈ members, Legible m.2) :
      Legible (.object (named members))

theorem Legible.readsBack {json : Json} (h : Legible json) : ReadsBack json := by
  induction h with
  | null => exact readsBack_null
  | bool value => exact readsBack_bool value
  | number n => exact readsBack_number n
  | string text => exact readsBack_string text
  | array _ ih => exact readsBack_array ih
  | object _ ih => exact readsBack_object ih

/-- **A value that is printed is read back.** -/
theorem read?_pretty {json : Json} (h : Legible json) : read? json.pretty = some json := by
  have hread : readValue (2 * (print 0 json).length + 2) ((print 0 json).toList ++ []) =
      some (json, []) := by
    refine h.readsBack ?_ stops_nil
    rw [String.length_toList]
    omega
  rw [List.append_nil] at hread
  rw [read?, pretty, hread]
  rfl

end Json

namespace Settings

variable {settings : Settings}

/-! ## Settings -/

/-- The numbers in the settings lie in the ranges in which they are read. -/
structure Fits (settings : Settings) : Prop where
  version : settings.version < UInt32.size
  warningLevel : settings.warningLevel < 256
  instructionLimit : ∀ limit ∈ settings.instructionLimit, limit < UInt64.size

theorem legible_get (settings : Settings) (field : SettingsField) :
    (settings.get field).Legible := by
  cases field with
  | version => exact .number _
  | scriptKey => exact .string _
  | filePath => exact .string _
  | projectDir =>
    rw [get]
    cases settings.projectDir with
    | none => exact .null
    | some dir => exact .string dir
  | allowedModules =>
    refine .array fun item hitem => ?_
    obtain ⟨text, -, rfl⟩ := List.mem_map.mp hitem
    exact .string text
  | warningLevel => exact .number _
  | instructionLimit =>
    rw [get]
    cases settings.instructionLimit with
    | none => exact .null
    | some limit => exact .number limit

theorem legible_toJson (settings : Settings) : settings.toJson.Legible := by
  have hnamed : settings.toJson =
      .object
        (Json.named (SettingsField.all.map fun field => (field.name, settings.get field))) := by
    rw [toJson, Json.named, List.map_map]
    rfl
  rw [hnamed]
  refine .object fun m hm => ?_
  obtain ⟨field, -, rfl⟩ := List.mem_map.mp hm
  exact legible_get settings field

theorem naturalBelow?_numberJson {n bound : Nat} (h : n < bound) :
    (numberJson n).naturalBelow? bound = some n := by
  have hdigits : (toString n).toList.all Char.isDigit = true := by
    rw [Nat.toString_eq_repr, Nat.toList_repr, List.all_eq_true]
    exact fun c hc => Nat.isDigit_of_mem_toDigits (by decide) (by decide) hc
  rw [Json.naturalBelow?, numberJson, Json.natural?, if_pos hdigits, Nat.toString_eq_repr,
    Nat.toNat?_repr]
  simpa using h

theorem texts?_textJson (texts : List String) :
    (Json.array (texts.map textJson)).texts? = some texts := by
  rw [Json.texts?]
  induction texts with
  | nil => rfl
  | cons text texts ih =>
    rw [List.map_cons, List.mapM_cons, ih]
    rfl

theorem ofJson?_toJson (h : settings.Fits) : ofJson? settings.toJson = some settings := by
  have hname (field : SettingsField) : SettingsField.ofName? field.name = some field := by
    cases field <;> decide
  have hversion (s : Settings) : s.set? .version (settings.get .version) =
      some { s with version := settings.version } := by
    rw [get, set?, naturalBelow?_numberJson h.version, Option.map_some]
  have hkey (s : Settings) : s.set? .scriptKey (settings.get .scriptKey) =
      some { s with scriptKey := settings.scriptKey } := rfl
  have hpath (s : Settings) : s.set? .filePath (settings.get .filePath) =
      some { s with filePath := settings.filePath } := rfl
  have hdir (s : Settings) : s.set? .projectDir (settings.get .projectDir) =
      some { s with projectDir := settings.projectDir } := by
    rw [get, set?]
    cases settings.projectDir <;> rfl
  have hmodules (s : Settings) : s.set? .allowedModules (settings.get .allowedModules) =
      some { s with allowedModules := settings.allowedModules } := by
    rw [get, set?, texts?_textJson, Option.map_some]
  have hlevel (s : Settings) : s.set? .warningLevel (settings.get .warningLevel) =
      some { s with warningLevel := settings.warningLevel } := by
    rw [get, set?, naturalBelow?_numberJson h.warningLevel, Option.map_some]
  have hlimit (s : Settings) : s.set? .instructionLimit (settings.get .instructionLimit) =
      some { s with instructionLimit := settings.instructionLimit } := by
    rw [get, set?]
    cases hsome : settings.instructionLimit with
    | none => rfl
    | some limit =>
      change ((Json.naturalBelow? UInt64.size (numberJson limit)).map some).map _ = _
      rw [naturalBelow?_numberJson (h.instructionLimit limit hsome)]
      rfl
  simp only [toJson, ofJson?, SettingsField.all, List.map_cons, List.map_nil, readMembers, hname,
    hversion, hkey, hpath, hdir, hmodules, hlevel, hlimit]
  rfl

/-- **Settings are read as they are written.** -/
theorem ofText?_toText (h : settings.Fits) : ofText? settings.toText = some settings := by
  rw [ofText?, toText, Json.read?_pretty (legible_toJson settings), Option.bind_some,
    ofJson?_toJson h]

/-- The preset settings are in range. -/
theorem fits_preset : Fits {} where
  version := by decide
  warningLevel := by decide
  instructionLimit := by simp

end Settings

end ScriptHost
