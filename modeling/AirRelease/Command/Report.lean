import AirRelease.Command.Event
import AirRelease.Service

namespace AirRelease

def yesNo (b : Bool) : String :=
  if b then "Yes" else "No"

-- A full rollout is not mentioned.
def Package.row (p : Package) : String :=
  ", ".intercalate (
    [s!"Label: {p.label.text}", s!"App Version: {p.version.text}",
      s!"Mandatory: {yesNo p.mandatory}", s!"Release Method: {p.method.name}"] ++
    (if p.rollout.IsFull then [] else [s!"Rollout: {p.rollout.text}"]) ++
    (if p.disabled then ["Disabled: Yes"] else []) ++
    p.description.toList.map fun text => s!"Description: {text}")

def AppSummary.row (app : AppSummary) : String :=
  let owner := app.owner.elim "(none)" (·.text)
  let deployments := ", ".intercalate (app.deployments.map (·.text))
  s!"{app.name.text}  owner: {owner}  deployments: {deployments}"

def DeploymentSummary.row (d : DeploymentSummary) : String :=
  let current := d.current.elim "No updates released" Package.row
  s!"{d.name.text}  {d.key.text}  {current}"

def Collaborators.rows (cs : Collaborators) : List String :=
  cs.entries.map fun (email, permission) =>
    match permission with
    | .owner => s!"{email.text} (Owner)"
    | .collaborator => email.text

-- A release that was skipped is only warned of.
def Outcome.report (o : Outcome) (deployment message : String) : List Event :=
  match o with
  | .released _ => [.success message]
  | .skipped current =>
    [.warning (Warning.duplicateSkipped current.label deployment).message]

-- What the reply to a request tells. Of a release it depends on the content as well.
def Request.report : Request → Reply → List Event
  | .addApp _, .app app =>
    .success (Success.appAdded app.name.text) ::
      app.deployments.map fun d => .progress s!"  {d.name.text}: {d.key.text}"
  | .listApps, .apps apps =>
    [.listing (.array (apps.map AppSummary.toJson)) (apps.map AppSummary.row)]
  | .renameApp old new, .done => [.success (Success.appRenamed old new)]
  | .removeApp name, .done => [.success (Success.appRemoved name)]
  | .transferApp name email, .done => [.success (Success.appTransferred name email)]
  | .addCollaborator app email, .done => [.success (Success.collaboratorAdded email app)]
  | .listCollaborators _, .collaborators cs => [.listing cs.toJson cs.rows]
  | .removeCollaborator app email, .done => [.success (Success.collaboratorRemoved email app)]
  | .addDeployment app _, .deployment d =>
    [.success (Success.deploymentAdded d.name.text d.key.text app)]
  | .listDeployments _, .deployments ds =>
    [.listing (.array (ds.map DeploymentSummary.toJson)) (ds.map DeploymentSummary.row)]
  | .renameDeployment app old new, .done => [.success (Success.deploymentRenamed old new app)]
  | .removeDeployment app name, .done => [.success (Success.deploymentRemoved name app)]
  | .history _ _, .history h => [.listing h.toJson (h.packages.map Package.row)]
  | .clearHistory app deployment, .done => [.success (Success.historyCleared deployment app)]
  | .patch app deployment _, .package p => [.success (Success.patched p.label.text deployment app)]
  | .promote app source target _, .outcome o =>
    o.report target (Success.promoted source target app)
  | .rollback app deployment _, .package p =>
    [.progress s!"Created {p.label.text} from an earlier release",
      .success (Success.rolledBack deployment app)]
  | _, _ => []

end AirRelease
