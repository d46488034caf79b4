import AirRelease.Json.Scan
import AirRelease.Record

namespace AirRelease

abbrev Decoder (α : Type) := Json → Except ReadError α

namespace Json

mutual

def Intact : Json → Bool
  | broken => false
  | array items => intactItems items
  | object members => intactMembers members
  | _ => true

def intactItems : List Json → Bool
  | [] => true
  | item :: rest => item.Intact && intactItems rest

def intactMembers : List (Option String × Json) → Bool
  | [] => true
  | (_, value) :: rest => value.Intact && intactMembers rest

end

-- A value that nothing is expected of.
def ignored : Decoder Unit :=
  fun j => if j.Intact then .ok () else .error .malformed

def text : Decoder String
  | string (some s) => .ok s
  | _ => .error .malformed

def flag : Decoder Bool
  | bool b => .ok b
  | _ => .error .malformed

-- A natural number below `bound`.
def natural (bound : Nat) : Decoder Nat
  | number digits =>
    match Text.decimal? digits with
    | some n => if n < bound then .ok n else .error .malformed
    | none => .error .malformed
  | _ => .error .malformed

-- An integer of 64 bits with sign. There is no negative zero.
def integer : Decoder Int
  | number ('-' :: digits) =>
    match Text.decimal? digits with
    | some n => if 0 < n ∧ n ≤ UInt64.size / 2 then .ok (-n) else .error .malformed
    | none => .error .malformed
  | j => (natural (UInt64.size / 2) j).map Int.ofNat

def optional (d : Decoder α) : Decoder (Option α)
  | null => .ok none
  | j => (d j).map some

def list (d : Decoder α) : Decoder (List α)
  | array items => items.mapM d
  | _ => .error .malformed

-- A value that has to pass a rule.
def checked (d : Decoder α) (rule : α → Except String β) : Decoder β :=
  fun j => do (rule (← d j)).mapError .refused

-- One of several names, written as a text or as the only key of an object.
def choice (names : List (String × α)) : Decoder α
  | string (some s) | object [(some s, null)] =>
    match names.lookup s with
    | some a => .ok a
    | none => .error .malformed
  | _ => .error .malformed

-- A record is an object with its fields in any order, or an array of its fields in order. `step` takes
-- up the value of a field. Members that are no fields are ignored.
def record (names : List String) (step : δ → String → Json → Except ReadError δ) (start : δ) :
    Decoder δ
  | object members =>
    members.foldlM (fun d member =>
      match member with
      | (some name, value) =>
        if names.contains name then step d name value else do ignored value; return d
      | (none, _) => .error .malformed) start
  | array items => do
    let d ← (names.zip items).foldlM (fun d (name, value) => step d name value) start
    if names.length < items.length then .error .malformed else .ok d
  | _ => .error .malformed

def decode (d : Decoder α) (text : String) : Except ReadError α := do
  let (j, complete) := scan text
  let a ← d j
  if complete then .ok a else .error .malformed

end Json
end AirRelease
