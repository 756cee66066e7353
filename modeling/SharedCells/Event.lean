/-
# SharedCells.Event -- what is logged

An event has a level, a message, and fields whose values are already text.
-/

namespace SharedCells

/-- **`Level`** -- how much an event matters. -/
inductive Level where
  | warn
  | info
  | debug
  deriving DecidableEq

/-- The level's name. -/
def Level.name : Level → String
  | warn => "WARN"
  | info => "INFO"
  | debug => "DEBUG"

/-- **`Event`** -- one line of the log. -/
structure Event where
  level : Level
  message : String
  fields : List (String × String)

namespace Event

/-- Is the event shown to a user? Events for developers are not. -/
def isShown (e : Event) : Bool := e.level ≠ .debug

/-- The event as a line of text. -/
def line (e : Event) : String :=
  let fields := e.fields.map fun (name, value) => name ++ "=" ++ value
  " ".intercalate ([e.level.name, e.message] ++ fields)

end Event

end SharedCells
