import AirRelease.History
import AirRelease.Json.Decode
import AirRelease.Registry

namespace AirRelease

-- Sizes and times stay below this bound.
def wordBound : Nat :=
  UInt64.size

namespace Label

def toJson (l : Label) : Json :=
  .ofString l.text

def decoder : Decoder Label :=
  fun j => (Json.text j).map Label.mk

end Label

namespace AccessKey

def toJson (k : AccessKey) : Json :=
  .ofString k.text

def decoder : Decoder AccessKey :=
  fun j => (Json.text j).map AccessKey.mk

end AccessKey

namespace VersionRange

def toJson (v : VersionRange) : Json :=
  .ofString v.text

def decoder : Decoder VersionRange :=
  Json.checked Json.text fun text => (ofText text).mapError (·.message)

end VersionRange

namespace Rollout

def toJson (r : Rollout) : Json :=
  .ofNat r.percent

def decoder : Decoder Rollout :=
  Json.checked Json.integer fun value => (ofInt value).mapError (·.message)

end Rollout

namespace Name

def toJson (n : Name) : Json :=
  .ofString n.text

def decoder : Decoder Name :=
  Json.checked Json.text fun text => (ofText text).mapError (·.message)

end Name

namespace Email

def toJson (e : Email) : Json :=
  .ofString e.text

def decoder : Decoder Email :=
  Json.checked Json.text fun text => (ofText text).mapError (·.message)

end Email

namespace ReleaseMethod

def toJson (m : ReleaseMethod) : Json :=
  .ofString m.name

def decoder : Decoder ReleaseMethod :=
  Json.choice ([upload, promote, rollback].map fun m => (m.name, m))

end ReleaseMethod

namespace Permission

def toJson (p : Permission) : Json :=
  .ofString p.name

def decoder : Decoder Permission :=
  Json.choice ([owner, collaborator].map fun p => (p.name, p))

end Permission

namespace Package

def toJson (p : Package) : Json :=
  .ofFields [
    ("label", p.label.toJson),
    ("appVersion", p.version.toJson),
    ("packageHash", .ofString p.hash),
    ("size", .ofNat p.size),
    ("uploadTime", .ofNat p.uploadTime),
    ("description", p.description.elim .null .ofString),
    ("isDisabled", .bool p.disabled),
    ("isMandatory", .bool p.mandatory),
    ("rollout", p.rollout.toJson),
    ("releaseMethod", p.method.toJson)
  ]

-- The fields of a package that have been read.
structure Draft where
  label : Option Label := none
  version : Option VersionRange := none
  hash : Option String := none
  size : Option Nat := none
  uploadTime : Option Nat := none
  description : Option (Option String) := none
  disabled : Option Bool := none
  mandatory : Option Bool := none
  rollout : Option Rollout := none
  method : Option ReleaseMethod := none

def fields : List String :=
  ["label", "appVersion", "packageHash", "size", "uploadTime", "description", "isDisabled",
    "isMandatory", "rollout", "releaseMethod"]

namespace Draft

def read (d : Draft) (field : String) (j : Json) : Except ReadError Draft :=
  match field with
  | "label" => do return { d with label := ← Record.once d.label (Label.decoder j) }
  | "appVersion" => do return { d with version := ← Record.once d.version (VersionRange.decoder j) }
  | "packageHash" => do return { d with hash := ← Record.once d.hash (Json.text j) }
  | "size" => do return { d with size := ← Record.once d.size (Json.natural wordBound j) }
  | "uploadTime" => do
    return { d with uploadTime := ← Record.once d.uploadTime (Json.natural wordBound j) }
  | "description" => do
    return { d with description := ← Record.once d.description (Json.optional Json.text j) }
  | "isDisabled" => do return { d with disabled := ← Record.once d.disabled (Json.flag j) }
  | "isMandatory" => do return { d with mandatory := ← Record.once d.mandatory (Json.flag j) }
  | "rollout" => do return { d with rollout := ← Record.once d.rollout (Rollout.decoder j) }
  | "releaseMethod" => do return { d with method := ← Record.once d.method (ReleaseMethod.decoder j) }
  | _ => .error .malformed

-- The description, the two flags and the rollout may be missing.
def finish (d : Draft) : Except ReadError Package := do
  return {
    label := ← Record.required d.label
    version := ← Record.required d.version
    hash := ← Record.required d.hash
    size := ← Record.required d.size
    uploadTime := ← Record.required d.uploadTime
    description := d.description.getD none
    disabled := d.disabled.getD false
    mandatory := d.mandatory.getD false
    rollout := d.rollout.getD .full
    method := ← Record.required d.method
  }

end Draft

def decoder : Decoder Package :=
  fun j => do (← Json.record fields Draft.read {} j).finish

end Package

namespace History

def toJson (h : History) : Json :=
  .array (h.packages.map Package.toJson)

def decoder : Decoder History :=
  fun j => (Json.list Package.decoder j).map History.mk

end History

namespace Collaborators

def toJson (cs : Collaborators) : Json :=
  .ofFields (cs.entries.map fun (e, p) => (e.text, .ofFields [("permission", p.toJson)]))

def readPermission (permission : Option Permission) (field : String) (j : Json) :
    Except ReadError (Option Permission) :=
  match field with
  | "permission" => Record.once permission (Permission.decoder j)
  | _ => .error .malformed

def permissionDecoder : Decoder Permission :=
  fun j => do Record.required (← Json.record ["permission"] readPermission none j)

def readEntry (cs : Collaborators) : Option String × Json → Except ReadError Collaborators
  | (none, _) => .error .malformed
  | (some address, value) => do
    let email ← (Email.ofText address).mapError fun e => .refused e.message
    return cs.insert email (← permissionDecoder value)

-- An address that comes again gets the later permission.
def decoder : Decoder Collaborators
  | .object members => members.foldlM readEntry empty
  | _ => .error .malformed

end Collaborators

namespace Deployment

def toJson (d : Deployment) : Json :=
  .ofFields [("name", d.name.toJson), ("key", d.key.toJson)]

structure Draft where
  name : Option Name := none
  key : Option AccessKey := none

def Draft.read (d : Draft) (field : String) (j : Json) : Except ReadError Draft :=
  match field with
  | "name" => do return { d with name := ← Record.once d.name (Name.decoder j) }
  | "key" => do return { d with key := ← Record.once d.key (AccessKey.decoder j) }
  | _ => .error .malformed

def decoder : Decoder Deployment :=
  fun j => do
    let d ← Json.record ["name", "key"] Draft.read {} j
    return ⟨← Record.required d.name, ← Record.required d.key⟩

end Deployment

namespace App

def toJson (app : App) : Json :=
  .ofFields [
    ("name", app.name.toJson),
    ("collaborators", app.collaborators.toJson),
    ("deployments", .array (app.deployments.map Deployment.toJson))
  ]

structure Draft where
  name : Option Name := none
  collaborators : Option Collaborators := none
  deployments : Option (List Deployment) := none

def Draft.read (d : Draft) (field : String) (j : Json) : Except ReadError Draft :=
  match field with
  | "name" => do return { d with name := ← Record.once d.name (Name.decoder j) }
  | "collaborators" => do
    return { d with collaborators := ← Record.once d.collaborators (Collaborators.decoder j) }
  | "deployments" => do
    return { d with deployments := ← Record.once d.deployments (Json.list Deployment.decoder j) }
  | _ => .error .malformed

def decoder : Decoder App :=
  fun j => do
    let d ← Json.record ["name", "collaborators", "deployments"] Draft.read {} j
    return ⟨← Record.required d.name, ← Record.required d.collaborators, ← Record.required d.deployments⟩

end App

namespace Registry

def toJson (r : Registry) : Json :=
  .array (r.apps.map App.toJson)

def decoder : Decoder Registry :=
  fun j => (Json.list App.decoder j).map Registry.mk

end Registry
end AirRelease
