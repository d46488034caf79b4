import AirRelease.Command.Error
import AirRelease.Command.Success
import AirRelease.Label
import AirRelease.Name
import AirRelease.Service.Request
import AirRelease.Store
import AirRelease.Store.Error

namespace AirRelease

inductive Warning
  | duplicateSkipped (current : Label) (deployment : String)
  -- The deployment has been removed, but not what is stored for it.
  | orphanedHistory (deployment : Name) (e : LockError)
deriving DecidableEq

def Warning.message : Warning → String
  | .duplicateSkipped current deployment => Success.duplicateSkipped current.text deployment
  | .orphanedHistory deployment e =>
    s!"history of deployment {deployment.text} was not deleted: {e.message}"

structure Service (m : Type → Type) where
  store : Store m
  account : Email
  -- The deployments of a new app.
  deployments : List Name
  lockTimeout : Duration

-- What a request meets with: the time in milliseconds and keys that are not in use.
structure Occasion where
  time : Nat
  keys : Nat → AccessKey

structure Response where
  result : Except CommandError Reply
  warnings : List Warning

namespace Service

variable {m : Type → Type} [Monad m]

def stored (x : m (Except StoreError α)) : ExceptT CommandError m α :=
  ExceptT.mk do return (← x).mapError .store

def named (text : String) : Except CommandError Name :=
  (Name.ofText text).mapError (.name text)

def mailed (text : String) : Except CommandError Email :=
  (Email.ofText text).mapError (.name text)

-- Runs an action with a lock, which is given back whatever happens.
def withLock (s : Service m) (target : LockTarget) (busy : LockBusy)
    (action : ExceptT CommandError m α) : ExceptT CommandError m α :=
  ExceptT.mk do
    match ← s.store.acquire s.lockTimeout target busy with
    | .error e => return .error (.lock e)
    | .ok () =>
      let result ← action.run
      s.store.unlock target
      return result

-- Saves the registry if the operation succeeds.
def updateRegistry (s : Service m) (f : Registry → Except RegistryError (α × Registry)) :
    ExceptT CommandError m α :=
  s.withLock .registry (.registry s.lockTimeout) do
    let r ← stored s.store.loadApps
    let (a, r) ← (f r).mapError CommandError.registry
    stored (s.store.saveApps r)
    return a

def changeRegistry (s : Service m) (f : Registry → Except RegistryError Registry) :
    ExceptT CommandError m Reply :=
  s.updateRegistry fun r => return (.done, ← f r)

def findApp (s : Service m) (app : String) : ExceptT CommandError m App := do
  let r ← stored s.store.loadApps
  (r.app s.account app).mapError CommandError.registry

def findDeployment (s : Service m) (app deployment : String) : ExceptT CommandError m Deployment := do
  let app ← s.findApp app
  (app.deployment deployment).mapError CommandError.registry

-- Saves the history if the operation succeeds and changes it.
def updateHistory (s : Service m) (d : Deployment)
    (f : History → Except ReleaseError (α × History)) : ExceptT CommandError m α :=
  s.withLock (.history d.key) (.deployment d.name s.lockTimeout) do
    let before ← stored (s.store.loadHistory d.key)
    let (a, after) ← (f before).mapError CommandError.release
    if after ≠ before then stored (s.store.saveHistory d.key after)
    return a

-- Deletes what is stored for a deployment that is in the registry no more.
def dropHistory (s : Service m) (d : Deployment) : m (List Warning) := do
  let busy := .deployment d.name s.lockTimeout
  match ← s.store.acquire s.lockTimeout (.history d.key) busy with
  | .error e => return [.orphanedHistory d.name e]
  | .ok () =>
    let deleted ← s.store.deleteHistory d.key
    s.store.unlock (.history d.key)
    match deleted with
    | .error e => return [.orphanedHistory d.name (.store e)]
    | .ok () => return []

def dropHistories (s : Service m) : List Deployment → m (List Warning)
  | [] => return []
  | d :: rest => do
    let warnings ← s.dropHistory d
    return warnings ++ (← s.dropHistories rest)

-- The deployments of an app with their current releases.
def summaries (s : Service m) : List Deployment → ExceptT CommandError m (List DeploymentSummary)
  | [] => return []
  | d :: rest => do
    let h ← stored (s.store.loadHistory d.key)
    return ⟨d.name, d.key, h.latest⟩ :: (← s.summaries rest)

-- The deployments that a request removes.
def removed (s : Service m) : Request → ExceptT CommandError m (List Deployment)
  | .removeApp name => do
    let app ← s.updateRegistry (·.removeApp s.account name)
    return app.deployments
  | .removeDeployment app name => do
    let d ← s.updateRegistry (·.removeDeployment s.account app name)
    return [d]
  | _ => return []

-- The reply to a request that removes nothing.
def reply (s : Service m) (o : Occasion) : Request → ExceptT CommandError m Reply
  | .addApp name => do
    let name ← named name
    let app ← s.updateRegistry (·.addApp s.account name s.deployments o.keys)
    return .app app
  | .listApps => do
    let r ← stored s.store.loadApps
    return .apps ((r.visible s.account).map App.summary)
  | .renameApp old new => do
    let new ← named new
    s.changeRegistry (·.renameApp s.account old new)
  | .transferApp name email => do
    let email ← mailed email
    s.changeRegistry (·.transferApp s.account name email)
  | .addCollaborator app email => do
    let email ← mailed email
    s.changeRegistry (·.addCollaborator s.account app email)
  | .listCollaborators app => return .collaborators (← s.findApp app).collaborators
  | .removeCollaborator app email => do
    let email ← mailed email
    s.changeRegistry (·.removeCollaborator s.account app email)
  | .addDeployment app name => do
    let name ← named name
    let d ← s.updateRegistry (·.addDeployment s.account app name (o.keys 0))
    return .deployment d
  | .listDeployments app => do
    let app ← s.findApp app
    return .deployments (← s.summaries app.deployments)
  | .renameDeployment app old new => do
    let new ← named new
    s.changeRegistry (·.renameDeployment s.account app old new)
  | .history app deployment => do
    let d ← s.findDeployment app deployment
    return .history (← stored (s.store.loadHistory d.key))
  | .clearHistory app deployment => do
    let d ← s.findDeployment app deployment
    s.updateHistory d fun h => return (.done, h.clear)
  | .release app deployment content version options => do
    let d ← s.findDeployment app deployment
    let version ← (VersionRange.ofText version).mapError fun e => CommandError.release (.ofVersion e)
    let bundle ← content.mapError CommandError.bundle
    let outcome ← s.updateHistory d (·.release bundle.hash bundle.size o.time version options)
    return .outcome outcome
  | .patch app deployment options => do
    let d ← s.findDeployment app deployment
    return .package (← s.updateHistory d (History.patch d.name · options))
  | .promote app source target options => do
    let app ← s.findApp app
    let source ← (app.deployment source).mapError CommandError.registry
    let target ← (app.deployment target).mapError CommandError.registry
    let sourceHistory ← stored (s.store.loadHistory source.key)
    let outcome ←
      s.updateHistory target (·.promote source.name sourceHistory options o.time)
    return .outcome outcome
  | .rollback app deployment target => do
    let d ← s.findDeployment app deployment
    return .package (← s.updateHistory d (History.rollback d.name · target))
  | .removeApp _ | .removeDeployment _ _ => return .done

def handle (s : Service m) (o : Occasion) (request : Request) : m Response := do
  match ← (s.removed request).run with
  | .error e => return ⟨.error e, []⟩
  | .ok deployments =>
    let warnings ← s.dropHistories deployments
    return ⟨← (s.reply o request).run, warnings⟩

end Service
end AirRelease
