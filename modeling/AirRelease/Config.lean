import AirRelease.Email
import AirRelease.Files.Path
import AirRelease.Record
import AirRelease.Time.Duration
import AirRelease.Yaml

namespace AirRelease

structure Config where
  account : Option Email
  dataDirectory : Path
  lockTimeout : Duration
  deployments : List Name
deriving DecidableEq

namespace Yaml

mutual

def Intact : Yaml → Bool
  | broken => false
  | sequence items => intactItems items
  | mapping members => intactMembers members
  | _ => true

def intactItems : List Yaml → Bool
  | [] => true
  | item :: rest => item.Intact && intactItems rest

def intactMembers : List (Yaml × Yaml) → Bool
  | [] => true
  | (k, v) :: rest => k.Intact && v.Intact && intactMembers rest

end

-- Any scalar is a text, whatever else it may look like.
def text : Yaml → Except ReadError String
  | scalar text _ _ => .ok text
  | _ => .error .malformed

def nullTag : String :=
  "tag:yaml.org,2002:null"

def IsNull (text : String) : Prop :=
  text = "null" ∨ text = "Null" ∨ text = "NULL" ∨ text = "~"

instance : DecidablePred IsNull :=
  fun _ => inferInstanceAs (Decidable (_ ∨ _ ∨ _ ∨ _))

-- There is no text where null or nothing is written without quotes.
def optionalText : Yaml → Except ReadError (Option String)
  | scalar text true none => .ok (if text = "" ∨ IsNull text then none else some text)
  | scalar text true (some tag) =>
    if tag ≠ nullTag then .ok (some text)
    else if IsNull text then .ok none
    else .error .malformed
  | y => y.text.map some

-- An empty place holds no items.
def texts : Yaml → Except ReadError (List String)
  | scalar "" true _ => .ok []
  | sequence items => items.mapM text
  | _ => .error .malformed

end Yaml

namespace Config

def defaultDataDirectory : Path :=
  ⟨".otaflow/data"⟩

def defaultLockTimeout : Duration :=
  .ofSeconds 30

def defaultDeployments : List Name :=
  [⟨"Staging", by decide⟩, ⟨"Production", by decide⟩]

def default : Config :=
  ⟨none, defaultDataDirectory, defaultLockTimeout, defaultDeployments⟩

def email (text : String) : Except ReadError Email :=
  (Email.ofText text).mapError fun e => .refused e.message

def readAccount (y : Yaml) : Except ReadError (Option Email) := do
  (← y.optionalText).mapM email

def readLockTimeout (y : Yaml) : Except ReadError Duration := do
  match Duration.ofText? (← y.text) with
  | some d => return d
  | none => throw .malformed

-- Adds the deployments of these names to `names`.
def addDeployments (names : List Name) : List String → Except ReadError (List Name)
  | [] => .ok names
  | text :: rest => do
    let name ← (Name.ofText text).mapError fun e => .refused e.message
    if name ∈ names then throw (.refused s!"duplicate default deployment: {name.text}")
    addDeployments (names ++ [name]) rest

def readDeployments (y : Yaml) : Except ReadError (List Name) := do
  let names ← addDeployments [] (← y.texts)
  if names = [] then throw (.refused "at least one default deployment is required")
  return names

-- The fields that have been read.
structure Draft where
  account : Option (Option Email) := none
  dataDirectory : Option Path := none
  lockTimeout : Option Duration := none
  deployments : Option (List Name) := none

namespace Draft

-- Fields that are not known are ignored.
def read (d : Draft) (member : Yaml × Yaml) : Except ReadError Draft := do
  let value := member.2
  match ← member.1.text with
  | "account" => return { d with account := ← Record.once d.account (readAccount value) }
  | "data_dir" =>
    return { d with dataDirectory := ← Record.once d.dataDirectory (value.text.map Path.mk) }
  | "lock_timeout" =>
    return { d with lockTimeout := ← Record.once d.lockTimeout (readLockTimeout value) }
  | "default_deployments" =>
    return { d with deployments := ← Record.once d.deployments (readDeployments value) }
  | _ => if value.Intact then return d else throw .malformed

def finish (d : Draft) : Config := {
  account := d.account.getD none
  dataDirectory := d.dataDirectory.getD defaultDataDirectory
  lockTimeout := d.lockTimeout.getD defaultLockTimeout
  deployments := d.deployments.getD defaultDeployments
}

end Draft

def ofYaml : Yaml → Except ReadError Config
  | .scalar "" true _ => .ok default
  | .mapping members => do return (← members.foldlM Draft.read {}).finish
  | _ => .error .malformed

def ofText (text : String) : Except ReadError Config := do
  let (y, complete) := Yaml.ofText text
  let config ← ofYaml y
  if complete then .ok config else .error .malformed

end Config
end AirRelease
