import AirRelease.FirstMatch
import AirRelease.Name
import AirRelease.Registry.Collaborators
import AirRelease.Registry.Error

namespace AirRelease

-- The key addresses the deployment's history in storage.
structure Deployment where
  name : Name
  key : AccessKey
deriving DecidableEq

structure App where
  name : Name
  collaborators : Collaborators
  deployments : List Deployment
deriving DecidableEq

namespace App

def IsOwner (app : App) (account : Email) : Prop :=
  app.collaborators.find account = some .owner

instance (app : App) (account : Email) : Decidable (app.IsOwner account) :=
  inferInstanceAs (Decidable (_ = _))

def HasDeployment (app : App) (name : Name) : Prop :=
  app.deployments.any (·.name = name)

instance (app : App) (name : Name) : Decidable (app.HasDeployment name) :=
  inferInstanceAs (Decidable (_ = true))

def deployment (app : App) (name : String) : Except RegistryError Deployment :=
  match app.deployments.find? (·.name.text = name) with
  | some d => .ok d
  | none => .error (.deploymentNotFound name)

def requireOwner (app : App) (account : Email) : Except RegistryError Unit :=
  if app.IsOwner account then .ok () else .error (.notOwner app.name)

end App

-- An account sees the apps that it collaborates on, and finds an app by its name among these.
@[ext]
structure Registry where
  apps : List App
deriving DecidableEq

namespace Registry

def empty : Registry :=
  ⟨[]⟩

instance : Inhabited Registry :=
  ⟨empty⟩

def visible (r : Registry) (account : Email) : List App :=
  r.apps.filter fun app => app.collaborators.Has account

-- Whether looking for `name` as `account` finds this app.
def matching (account : Email) (name : String) (app : App) : Bool :=
  app.name.text = name && app.collaborators.Has account

def app (r : Registry) (account : Email) (name : String) : Except RegistryError App :=
  match r.apps.find? (matching account name) with
  | some app => .ok app
  | none => .error (.appNotFound name)

-- The app of that name, if the account owns it.
def ownApp (r : Registry) (account : Email) (name : String) : Except RegistryError App := do
  let app ← r.app account name
  app.requireOwner account
  return app

def Sees (r : Registry) (account : Email) (name : Name) : Prop :=
  (r.visible account).any (·.name = name)

instance (r : Registry) (account : Email) (name : Name) : Decidable (r.Sees account name) :=
  inferInstanceAs (Decidable (_ = true))

-- Changes the app that is found under a name.
def change (r : Registry) (account : Email) (name : String) (f : App → App) : Registry :=
  ⟨changeFirst (matching account name) f r.apps⟩

-- Repeated deployment names count once. The `i`th deployment gets the key `keys i`.
def addApp (r : Registry) (account : Email) (name : Name) (deployments : List Name)
    (keys : Nat → AccessKey) : Except RegistryError (App × Registry) :=
  if r.Sees account name then .error (.appConflict name)
  else
    let app : App := {
      name
      collaborators := Collaborators.empty.insert account .owner
      deployments := deployments.eraseDups.mapIdx fun i name => ⟨name, keys i⟩
    }
    .ok (app, ⟨r.apps ++ [app]⟩)

def renameApp (r : Registry) (account : Email) (old : String) (new : Name) :
    Except RegistryError Registry := do
  let _ ← r.ownApp account old
  if new.text ≠ old ∧ r.Sees account new then throw (.appConflict new)
  return r.change account old ({ · with name := new })

def removeApp (r : Registry) (account : Email) (name : String) :
    Except RegistryError (App × Registry) := do
  let app ← r.ownApp account name
  return (app, ⟨r.apps.eraseP (matching account name)⟩)

-- The previous owner stays on as a collaborator.
def transferApp (r : Registry) (account : Email) (name : String) (newOwner : Email) :
    Except RegistryError Registry := do
  let app ← r.ownApp account name
  if newOwner = account then return r
  if ¬app.collaborators.Has newOwner ∧ r.Sees newOwner app.name then throw (.appConflict app.name)
  return r.change account name fun app =>
    { app with collaborators :=
        (app.collaborators.insert account .collaborator).insert newOwner .owner }

def addCollaborator (r : Registry) (account : Email) (name : String) (email : Email) :
    Except RegistryError Registry := do
  let app ← r.ownApp account name
  if app.collaborators.Has email then throw (.collaboratorConflict email app.name)
  if r.Sees email app.name then throw (.appConflict app.name)
  return r.change account name fun app =>
    { app with collaborators := app.collaborators.insert email .collaborator }

-- The owner may remove anyone else, a collaborator only itself.
def removeCollaborator (r : Registry) (account : Email) (name : String) (email : Email) :
    Except RegistryError Registry := do
  let app ← r.app account name
  if email ≠ account then app.requireOwner account
  match app.collaborators.find email with
  | none => throw (.collaboratorNotFound email app.name)
  | some .owner => throw (.ownerRemoval app.name)
  | some .collaborator =>
    return r.change account name fun app =>
      { app with collaborators := app.collaborators.erase email }

def addDeployment (r : Registry) (account : Email) (app : String) (name : Name) (key : AccessKey) :
    Except RegistryError (Deployment × Registry) := do
  let found ← r.ownApp account app
  if found.HasDeployment name then throw (.deploymentConflict name)
  return (⟨name, key⟩, r.change account app fun app =>
    { app with deployments := app.deployments ++ [⟨name, key⟩] })

def renameDeployment (r : Registry) (account : Email) (app : String) (old : String) (new : Name) :
    Except RegistryError Registry := do
  let found ← r.ownApp account app
  let _ ← found.deployment old
  if new.text ≠ old ∧ found.HasDeployment new then throw (.deploymentConflict new)
  return r.change account app fun app =>
    { app with deployments :=
        changeFirst (·.name.text = old) ({ · with name := new }) app.deployments }

def removeDeployment (r : Registry) (account : Email) (app : String) (name : String) :
    Except RegistryError (Deployment × Registry) := do
  let found ← r.ownApp account app
  let removed ← found.deployment name
  return (removed, r.change account app fun app =>
    { app with deployments := app.deployments.eraseP (·.name.text = name) })

def keys (r : Registry) : List AccessKey :=
  r.apps.flatMap fun app => app.deployments.map (·.key)

end Registry
end AirRelease
