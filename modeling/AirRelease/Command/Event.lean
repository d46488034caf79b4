import AirRelease.Effects
import AirRelease.Json

namespace AirRelease

inductive Event
  | progress (text : String)
  | success (text : String)
  | warning (text : String)
  | failure (text : String)
  -- A result that is a value, shown in rows where it is not shown as it is.
  | listing (value : Json) (rows : List String)

inductive OutputMode
  | normal
  | quiet
  | json
deriving DecidableEq

namespace Event

def toJson (kind message : String) : Json :=
  .ofFields [("event", .ofString kind), ("message", .ofString message)]

def lines (mode : OutputMode) : Event → List Line
  | progress text =>
    match mode with
    | .normal => [.output text]
    | .quiet | .json => []
  | success text =>
    match mode with
    | .normal | .quiet => [.output text]
    | .json => [.output (toJson "success" text).line]
  | warning text =>
    match mode with
    | .normal => [.error s!"[Warning]  {text}"]
    | .quiet => []
    | .json => [.output (toJson "warning" text).line]
  | failure text =>
    match mode with
    | .normal | .quiet => [.error s!"[Error]  {text}"]
    | .json => [.error (toJson "error" text).line]
  | listing value rows =>
    match mode with
    | .normal | .quiet => rows.map .output
    | .json => [.output value.pretty]

end Event

-- Tells of an event in a mode of output.
def Console.tell {m : Type → Type} [Monad m] [Console m] (mode : OutputMode) (e : Event) : m Unit :=
  (e.lines mode).forM Console.write

end AirRelease
