/-!
# Arguments

The words behind the name of the program: options, a command, and what the command takes. Options
may stand on both sides of the command, each once on a side; what is said behind the command counts.
Behind two dashes all words are plain.
-/

set_option autoImplicit false

namespace ScriptHost

/-- What the program is asked to do. -/
inductive Command where
  /-- Run a script once. -/
  | run (file : Option String)
  /-- Run a project once. -/
  | project (dir : String)
  /-- Show the value of a source text. -/
  | eval (code : String)
  /-- Show the value of every line of input. -/
  | repl
  /-- Run on every press of the key, of which the input tells. -/
  | listen
  /-- Show the modules. -/
  | modules
  /-- Show the settings. -/
  | settings
deriving DecidableEq, Repr, Inhabited

/-- Options that take the place of settings. -/
structure Options where
  configDir : Option String := none
  key : Option String := none
  /-- Modules that a script may refer to. -/
  allow : List String := []
  warningLevel : Option Nat := none
deriving DecidableEq, Repr, Inhabited

/-- The options, with those of a later side preferred. -/
def Options.override (first later : Options) : Options where
  configDir := later.configDir <|> first.configDir
  key := later.key <|> first.key
  allow := if later.allow.isEmpty then first.allow else later.allow
  warningLevel := later.warningLevel <|> first.warningLevel

/-- What the arguments ask for. -/
structure Invocation where
  options : Options
  command : Command
deriving DecidableEq, Repr, Inhabited

/-- Arguments that lead to no command. -/
inductive ArgumentStop where
  /-- They are not understood. -/
  | usage
  | help
  | version
deriving DecidableEq, Repr

namespace Arguments

/-- The names of commands. -/
inductive CommandName where
  | run
  | project
  | eval
  | repl
  | listen
  | modules
  | settings
  | help
deriving DecidableEq, Repr

/-- The command with a name. -/
def CommandName.ofWord? : String → Option CommandName
  | "run" => some .run
  | "project" => some .project
  | "eval" => some .eval
  | "repl" => some .repl
  | "listen" => some .listen
  | "modules" => some .modules
  | "settings" => some .settings
  | "help" => some .help
  | _ => none

/-- The names of options that take a value. -/
inductive OptionName where
  | configDir
  | key
  | allow
  | warningLevel
deriving DecidableEq, Repr

/-- The option with a name. -/
def OptionName.ofWord? : String → Option OptionName
  | "config-dir" => some .configDir
  | "key" => some .key
  | "allow" => some .allow
  | "warning-level" => some .warningLevel
  | _ => none

/-- The number that a word tells, if it fits into a byte. A sign may stand in front. -/
def byte? (word : String) : Option Nat :=
  let digits := match word.toList with
    | '+' :: digits => digits
    | '-' :: digits => digits
    | digits => digits
  if digits.isEmpty || !digits.all Char.isDigit then none
  else
    let n := digits.foldl (fun n c => 10 * n + (c.toNat - 48)) 0
    if n < 256 && (n = 0 || word.toList.head? != some '-') then some n else none

/-- The options with one more. Only modules may be named more than once. -/
def setOption (options : Options) (name : OptionName) (value : String) :
    Except ArgumentStop Options :=
  match name with
  | .configDir =>
    if options.configDir.isSome || value.isEmpty then .error .usage
    else .ok { options with configDir := some value }
  | .key => if options.key.isSome then .error .usage else .ok { options with key := some value }
  | .allow => .ok { options with allow := options.allow ++ [value] }
  | .warningLevel =>
    match options.warningLevel, byte? value with
    | none, some level => .ok { options with warningLevel := some level }
    | _, _ => .error .usage

/-- What a word is. -/
inductive Word where
  /-- Two dashes. -/
  | stop
  /-- An option, and its value if that stands in the same word. -/
  | long (name : String) (value : Option String)
  /-- Letters behind a dash. -/
  | short (letters : List Char)
  | plain (text : String)
deriving DecidableEq, Repr

/-- What a word is, unless it stands behind two dashes. -/
def classify (word : String) : Word :=
  match word.toList with
  | ['-', '-'] => .stop
  | '-' :: '-' :: rest =>
    match rest.dropWhile (· != '=') with
    | [] => .long (String.ofList rest) none
    | _ :: value => .long (String.ofList (rest.takeWhile (· != '='))) (some (String.ofList value))
  | '-' :: c :: rest => .short (c :: rest)
  | _ => .plain word

/-- The meaning of an option without a value. -/
def flag (top : Bool) (name : String) : ArgumentStop :=
  if name == "help" then .help else if name == "version" && top then .version else .usage

/-- The meaning of letters behind a dash. -/
def letter (top : Bool) (c : Char) : ArgumentStop :=
  if c == 'h' then .help else if c == 'V' && top then .version else .usage

/-- What has been read on one side of the command. -/
structure Side where
  options : Options := {}
  /-- The plain words. -/
  words : List String := []
  /-- Whether two dashes have been read. -/
  plainOnly : Bool := false
deriving Inhabited

/-- What is read with one word, or with an option and its value. -/
inductive Item where
  | stop
  | option (name : OptionName) (value : String)
  | plain (text : String)
deriving DecidableEq, Repr

/-- Reads an item that begins with a word, and the words behind it. -/
def readItem (top plainOnly : Bool) (word : String) (rest : List String) :
    Except ArgumentStop (Item × List String) :=
  if plainOnly then .ok (.plain word, rest)
  else
    match classify word with
    | .stop => .ok (.stop, rest)
    | .plain text => .ok (.plain text, rest)
    | .short letters => .error (letter top (letters.headD ' '))
    | .long name value =>
      match OptionName.ofWord? name, value with
      | none, some _ => .error .usage
      | none, none => .error (flag top name)
      | some name, some value => .ok (.option name value, rest)
      | some name, none =>
        match rest with
        | [] => .error .usage
        | value :: rest =>
          match classify value with
          | .plain value => .ok (.option name value, rest)
          | _ => .error .usage

/-- Reads what stands behind a command, which takes at most `most` plain words. Every item takes at
least one word, so their number bounds the items: `fuel`. -/
def readBehind (most : Nat) : Nat → Side → List String → Except ArgumentStop Side
  | 0, side, _ => .ok side
  | _, side, [] => .ok side
  | fuel + 1, side, word :: rest => do
    match ← readItem false side.plainOnly word rest with
    | (.stop, rest) => readBehind most fuel { side with plainOnly := true } rest
    | (.option name value, rest) =>
      readBehind most fuel { side with options := ← setOption side.options name value } rest
    | (.plain text, rest) =>
      if side.words.length < most then
        readBehind most fuel { side with words := side.words ++ [text] } rest
      else .error .usage

/-- Reads what stands in front of the command, and the command's name. -/
def readFront : Nat → Side → List String →
    Except ArgumentStop (Options × CommandName × List String)
  | 0, _, _ => .error .usage
  | _, _, [] => .error .usage
  | fuel + 1, side, word :: rest => do
    match ← readItem true side.plainOnly word rest with
    | (.stop, rest) => readFront fuel { side with plainOnly := true } rest
    | (.option name value, rest) =>
      readFront fuel { side with options := ← setOption side.options name value } rest
    | (.plain text, rest) =>
      match side.plainOnly, CommandName.ofWord? text with
      | false, some name => .ok (side.options, name, rest)
      | _, _ => .error .usage

/-- The most plain words that a command takes. -/
def CommandName.most : CommandName → Nat
  | .run => 1
  | .project => 1
  | .eval => 1
  | _ => 0

/-- A path must not be empty. -/
def pathWord (word : String) : Except ArgumentStop String :=
  if word.isEmpty then .error .usage else .ok word

/-- A command with the plain words behind its name. -/
def command (name : CommandName) (words : List String) : Except ArgumentStop Command :=
  match name, words with
  | .run, [] => .ok (.run none)
  | .run, [file] => (pathWord file).map fun file => .run (some file)
  | .project, [dir] => (pathWord dir).map .project
  | .eval, [code] => .ok (.eval code)
  | .repl, [] => .ok .repl
  | .listen, [] => .ok .listen
  | .modules, [] => .ok .modules
  | .settings, [] => .ok .settings
  | _, _ => .error .usage

/-- The end of a request for help, which may name a command. -/
def helpStop (words : List String) : ArgumentStop :=
  match words with
  | [] => .help
  | [word] => if (CommandName.ofWord? word).isSome then .help else .usage
  | _ => .usage

/-- What arguments ask for. -/
def parse (arguments : List String) : Except ArgumentStop Invocation := do
  let (front, name, rest) ← readFront (arguments.length + 1) {} arguments
  if name = .help then .error (helpStop rest)
  let behind ← readBehind name.most (rest.length + 1) {} rest
  return ⟨front.override behind.options, ← command name behind.words⟩

end Arguments

end ScriptHost
