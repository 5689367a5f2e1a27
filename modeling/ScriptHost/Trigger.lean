import ScriptHost.Text.Blank
/-!
# Keys and the trigger

A run is started by a key. `EdgeTrigger` fires once when its key goes down, and not again before it
has gone up: a key that is held may be reported as down many times.
-/

set_option autoImplicit false

namespace ScriptHost

/-- A key. -/
inductive Key where
  | letter (index : Fin 26)
  | digit (index : Fin 10)
  | function (index : Fin 12)
  | leftAlt | rightAlt
  | leftControl | rightControl
  | leftShift | rightShift
  | space | enter | escape | tab | backspace
  | insert | delete | home | finish | pageUp | pageDown
  | upArrow | downArrow | leftArrow | rightArrow
deriving DecidableEq, Repr, Inhabited

namespace Key

/-- The name of a key. -/
def name : Key → String
  | letter index => String.singleton (Char.ofNat (65 + index))
  | digit index => s!"Alpha{index.val}"
  | function index => s!"F{index.val + 1}"
  | leftAlt => "LeftAlt"
  | rightAlt => "RightAlt"
  | leftControl => "LeftControl"
  | rightControl => "RightControl"
  | leftShift => "LeftShift"
  | rightShift => "RightShift"
  | space => "Space"
  | enter => "Return"
  | escape => "Escape"
  | tab => "Tab"
  | backspace => "Backspace"
  | insert => "Insert"
  | delete => "Delete"
  | home => "Home"
  | finish => "End"
  | pageUp => "PageUp"
  | pageDown => "PageDown"
  | upArrow => "UpArrow"
  | downArrow => "DownArrow"
  | leftArrow => "LeftArrow"
  | rightArrow => "RightArrow"

/-- All keys, in the order in which they are listed. -/
def all : List Key :=
  (List.finRange 26).map letter ++ (List.finRange 10).map digit ++ (List.finRange 12).map function ++
    [leftAlt, rightAlt, leftControl, rightControl, leftShift, rightShift, space, enter, escape,
      tab, backspace, insert, delete, home, finish, pageUp, pageDown, upArrow, downArrow,
      leftArrow, rightArrow]

/-- A name that no key has. -/
structure UnknownName where
  name : String
deriving DecidableEq, Repr

/-- The text of the complaint. -/
def UnknownName.message (e : UnknownName) : String :=
  s!"'{e.name}' is not a key name"

/-- The key with a name. Blanks around it do not count, and letters may be of either case. -/
def parse (text : String) : Except UnknownName Key :=
  let wanted := (trim text).toLower
  match all.find? fun key => key.name.toLower == wanted with
  | some key => .ok key
  | none => .error ⟨text⟩

/-- The key that starts a run unless another is named. -/
def preset : Key := leftAlt

/-- The key that a preference names, or else the preset one. -/
def resolve (preference : Option String) : Key :=
  match preference.map parse with
  | some (.ok key) => key
  | _ => preset

end Key

/-- A key that went down or up. -/
structure KeyEvent where
  key : Key
  pressed : Bool
deriving DecidableEq, Repr

/-- A watch over one key. -/
structure EdgeTrigger where
  key : Key
  /-- Whether the key was down when it was last heard of. -/
  held : Bool := false
deriving DecidableEq, Repr

namespace EdgeTrigger

/-- Takes notice of an event, and says whether the key has just been pressed. -/
def handle (trigger : EdgeTrigger) (event : KeyEvent) : Bool × EdgeTrigger :=
  if event.key = trigger.key then
    (event.pressed && !trigger.held, { trigger with held := event.pressed })
  else (false, trigger)

/-- Takes notice of how the key is now. -/
def poll (trigger : EdgeTrigger) (pressed : Bool) : Bool × EdgeTrigger :=
  trigger.handle ⟨trigger.key, pressed⟩

end EdgeTrigger

end ScriptHost
