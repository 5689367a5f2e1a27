import ScriptHost.Grammar.Statement
/-!
# The grammar of items, and of a whole source text

An item that cannot be read is an error, but not the end: reading goes on behind it, at the next
semicolon, closing brace, namespace, class or function. So a source text yields either all of its
items or all of its errors.
-/

set_option autoImplicit false

namespace ScriptHost

namespace Grammar

/-- Parameters up to the closing parenthesis. A comma may follow the last one. -/
def parameters : Nat → List String → Rule (List String)
  | 0, found => return found.reverse
  | fuel + 1, found => do
    if closes .rparen (← peek) then return found.reverse
    else
      let name ← identifier
      if (← peek) = .comma then
        advance
        parameters fuel (name :: found)
      else return (name :: found).reverse

/-- A function or a method. -/
def functionDecl : Rule FunctionDecl := do
  let start ← here
  let _ ← expect .kwFn "'fn'"
  let name ← identifier
  let _ ← expect .lparen "'(' after function name"
  let params ← parameters (← budget) []
  let _ ← expect .rparen "')' after parameters"
  let _ ← expect .lbrace "'\x7b' to open function body"
  let body ← nested (block statement)
  let stop ← here
  let _ ← expect .rbrace "'\x7d' to close function body"
  return { name, params, body, span := start.merge stop }

/-- A field of a class. -/
def fieldDecl : Rule FieldDecl := do
  let start ← here
  advance
  let name ← identifier
  let initial ←
    if (← peek) = .eq then
      advance
      pure (some (← expression))
    else pure none
  let stop ← here
  let _ ← expect .semicolon "';' after field declaration"
  return { name, initial, span := start.merge stop }

/-- The members of a class up to the closing brace. -/
def members : Nat → List FieldDecl → List FunctionDecl →
    Rule (List FieldDecl × List FunctionDecl)
  | 0, fields, methods => return (fields.reverse, methods.reverse)
  | fuel + 1, fields, methods => do
    match ← peek with
    | .rbrace | .eof => return (fields.reverse, methods.reverse)
    | .kwLet =>
      let field ← fieldDecl
      skipSemicolons
      members fuel (field :: fields) methods
    | .kwFn =>
      let method ← functionDecl
      skipSemicolons
      members fuel fields (method :: methods)
    | found => failHere (.badClassMember found)

/-- A class. -/
def classDecl : Rule ClassDecl := do
  let start ← here
  let _ ← expect .kwClass "'class'"
  let name ← identifier
  let _ ← expect .lbrace "'\x7b' after class name"
  skipSemicolons
  let (fields, methods) ← members (← budget) [] []
  let stop ← here
  let _ ← expect .rbrace "'\x7d' to close class"
  return { name, fields, methods, span := start.merge stop }

/-- Goes to a likely start of the next item: behind a semicolon or closing brace, or to a
namespace, class or function that does not start the item which began at `start`. -/
def synchronize (start : Nat) : List Lexeme → State → State
  | [], s => s
  | lexeme :: rest, s =>
    match lexeme.token with
    | .eof => s
    | .semicolon | .rbrace => s.advance
    | .kwNamespace | .kwClass | .kwFn =>
      if start < s.position then s else synchronize start rest s.advance
    | _ => synchronize start rest s.advance

/-- Reads with `rule`. Where that fails, records the error and goes on behind it. -/
def recovering {α : Type} (rule : Rule α) : Rule (Option α) := fun s =>
  match rule s with
  | .ok a s => .ok (some a) s
  | .error e failed =>
    .ok none
      (synchronize s.position failed.rest
        { failed with depth := s.depth, errors := failed.errors.push e })

/-- Items up to the brace that closes their namespace. -/
def itemList (item : Rule (Option Item)) : Nat → List Item → Rule (List Item)
  | 0, found => return found.reverse
  | fuel + 1, found => do
    if closes .rbrace (← peek) then return found.reverse
    else
      let next ← item
      skipSemicolons
      itemList item fuel (next.toList ++ found)

/-- A namespace whose items are read by `item`. -/
def namespaceOver (item : Rule (Option Item)) : Rule Item := do
  let start ← here
  let _ ← expect .kwNamespace "'namespace'"
  let path ← dottedName
  let _ ← expect .lbrace "'\x7b' after namespace name"
  skipSemicolons
  let items ← nested (do itemList item (← budget) [])
  let stop ← here
  let _ ← expect .rbrace "'\x7d' to close namespace"
  return .space path items (start.merge stop)

/-- An item whose own items are read by `item`. -/
def itemOver (item : Rule (Option Item)) : Rule Item := do
  match ← peek with
  | .kwNamespace => namespaceOver item
  | .kwClass => return .classDecl (← classDecl)
  | .kwFn => return .function (← functionDecl)
  | _ => return .stmt (← statement)

/-- An item, or nothing where reading had to recover. The fuel is a bound on the levels of nesting
still free. -/
def itemWithin : Nat → Rule (Option Item)
  | 0 => failHere .tooDeep
  | fuel + 1 => recovering (itemOver (itemWithin fuel))

/-- An item, or nothing where reading had to recover. -/
def item : Rule (Option Item) :=
  itemWithin (maxNesting + 1)

/-- The items of a source text up to its end. -/
def topLevel : Nat → List Item → Rule (List Item)
  | 0, found => return found.reverse
  | fuel + 1, found => do
    match ← peek with
    | .eof => return found.reverse
    | .rbrace =>
      let span ← here
      modify fun s => { s with errors := s.errors.push (ParseError.strayBrace.placed span) }
      advance
      skipSemicolons
      topLevel fuel found
    | _ =>
      let next ← item
      skipSemicolons
      topLevel fuel (next.toList ++ found)

/-- A whole source text. -/
def sourceText : Rule (List Item) := do
  skipSemicolons
  topLevel (← budget) []

end Grammar

/-- The items that a list of lexemes spells, or else everything wrong with their order. -/
def parse (lexemes : List Lexeme) : Except (List Diagnostic) (List Item) :=
  match Grammar.sourceText (Grammar.State.ofLexemes lexemes) with
  | .ok items s => if s.errors.isEmpty then .ok items else .error s.errors.toList
  | .error e s => .error (s.errors.push e).toList

end ScriptHost
