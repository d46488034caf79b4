import AirRelease.Command.Error

namespace AirRelease.Command

def flag (option value : String) : Except CommandError Bool :=
  match String.ofList ((Text.trim value.toList).map Char.toLower) with
  | "true" => .ok true
  | "false" => .ok false
  | _ => .error (.flag option value)

-- An integer with or without a sign.
def integer? : List Char → Option Int
  | '-' :: digits => (Text.decimal? digits).map fun n => -n
  | '+' :: digits => (Text.decimal? digits).map fun n => n
  | digits => (Text.decimal? digits).map fun n => n

def dropPercent (cs : List Char) : List Char :=
  if cs.getLast? = some '%' then cs.dropLast else cs

-- A percent sign may follow the number.
def rollout (value : String) : Except CommandError Int :=
  match integer? (dropPercent (Text.trim value.toList)) with
  | some n => if 1 ≤ n ∧ n ≤ 100 then .ok n else .error (.rollout value)
  | none => .error (.rollout value)

end AirRelease.Command
