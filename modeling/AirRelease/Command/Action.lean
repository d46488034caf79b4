import AirRelease.Command.Event
import AirRelease.Command.Grammar
import AirRelease.Command.Value
import AirRelease.Service.Request

namespace AirRelease

-- Wrong option values make an action fail, but only after its configuration has been found.
inductive Action
  | init (account : Option String) (force : Bool)
  | request (r : Except CommandError Request)
  | release (app deployment : String) (content : Path) (version : String)
    (options : Except CommandError ReleaseOptions)

structure Invocation where
  mode : OutputMode
  action : Action

namespace CommandOption

def help : CommandOption :=
  ⟨"help", some 'h', .halt .help, []⟩

def version : CommandOption :=
  ⟨"version", some 'V', .halt .version, []⟩

-- Nothing more is told with this option.
def verbose : CommandOption :=
  ⟨"verbose", some 'v', .nothing, []⟩

def quiet : CommandOption :=
  ⟨"quiet", some 'q', .nothing, ["json"]⟩

def json : CommandOption :=
  ⟨"json", none, .nothing, []⟩

def account : CommandOption :=
  ⟨"account", some 'a', .value, []⟩

def force : CommandOption :=
  ⟨"force", none, .nothing, []⟩

def deployment : CommandOption :=
  ⟨"deployment-name", some 'd', .value, []⟩

def label : CommandOption :=
  ⟨"label", some 'l', .value, []⟩

def targetVersion : CommandOption :=
  ⟨"target-binary-version", some 't', .value, []⟩

def targetRelease : CommandOption :=
  ⟨"target-release", some 'r', .value, []⟩

def allowDuplicate : CommandOption :=
  ⟨"no-duplicate-release-error", none, .nothing, []⟩

def description : CommandOption :=
  ⟨"description", none, .value, []⟩

def disabled : CommandOption :=
  ⟨"disabled", some 'x', .optional "true", []⟩

def mandatory : CommandOption :=
  ⟨"mandatory", some 'm', .optional "true", []⟩

def rollout : CommandOption :=
  ⟨"rollout", none, .value, []⟩

-- Options of every command and of every group of commands.
def common : List CommandOption :=
  [help, verbose, quiet, json]

def metadata : List CommandOption :=
  [description, disabled, mandatory, rollout]

end CommandOption

-- What can be said about every package that an action makes or changes.
structure Metadata where
  description : Option String
  disabled : Option Bool
  mandatory : Option Bool
  rollout : Option Int

-- Of several values that are wrong, the first one in this order is reported.
def Metadata.ofGiven (g : Given) : Except CommandError Metadata := do
  let disabled ← (g.value? .disabled).mapM (Command.flag "disabled")
  let mandatory ← (g.value? .mandatory).mapM (Command.flag "mandatory")
  let rollout ← (g.value? .rollout).mapM Command.rollout
  return ⟨g.value? .description, disabled, mandatory, rollout⟩

namespace Action

-- A deployment that a release goes to if none is named.
def defaultDeployment : String :=
  "Staging"

def ask (r : Request) : Action :=
  request (.ok r)

def releaseOptions (g : Given) : Except CommandError ReleaseOptions := do
  let m ← Metadata.ofGiven g
  return {
    description := m.description
    disabled := m.disabled
    mandatory := m.mandatory
    rollout := m.rollout
    allowDuplicate := g.Has .allowDuplicate
  }

def patchOptions (g : Given) : Except CommandError PatchOptions := do
  let m ← Metadata.ofGiven g
  return {
    label := (g.value? .label).map Label.mk
    description := m.description
    disabled := m.disabled
    mandatory := m.mandatory
    rollout := m.rollout
    version := g.value? .targetVersion
  }

def promoteOptions (g : Given) : Except CommandError PromoteOptions := do
  let m ← Metadata.ofGiven g
  return {
    description := m.description
    disabled := m.disabled
    mandatory := m.mandatory
    rollout := m.rollout
    version := g.value? .targetVersion
    allowDuplicate := g.Has .allowDuplicate
  }

end Action

-- A group and a command in it can be given different modes. Then silence gives way to values.
def OutputMode.ofGiven (g : Given) : OutputMode :=
  if g.Has .json then .json else if g.Has .quiet then .quiet else .normal

namespace Invocation

abbrev Member :=
  List String × Grammar Invocation

def operand (name : String) : Operand :=
  ⟨name, true⟩

def command (names : List String) (options : List CommandOption) (operands : List Operand)
    (action : Given → Vector String operands.length → Action) : Member :=
  (names, .command {
    options := CommandOption.common ++ options
    operands
    build := fun g words => ⟨.ofGiven g, action g words⟩
  })

-- A command without options of its own.
def plain (names : List String) (operands : List String)
    (request : Vector String (operands.map operand).length → Request) : Member :=
  command names [] (operands.map operand) fun _ words => .ask (request words)

def group (name : String) (members : List Member) : Member :=
  ([name], .group CommandOption.common members)

def apps : Member :=
  group "app" [
    plain ["add"] ["name"] fun w => .addApp w[0],
    plain ["ls", "list"] [] fun _ => .listApps,
    plain ["rename"] ["current-name", "new-name"] fun w => .renameApp w[0] w[1],
    plain ["rm", "remove"] ["name"] fun w => .removeApp w[0],
    plain ["transfer"] ["name", "email"] fun w => .transferApp w[0] w[1]
  ]

def collaborators : Member :=
  group "collaborator" [
    plain ["add"] ["app", "email"] fun w => .addCollaborator w[0] w[1],
    plain ["ls", "list"] ["app"] fun w => .listCollaborators w[0],
    plain ["rm", "remove"] ["app", "email"] fun w => .removeCollaborator w[0] w[1]
  ]

def deployments : Member :=
  group "deployment" [
    plain ["add"] ["app", "name"] fun w => .addDeployment w[0] w[1],
    plain ["ls", "list"] ["app"] fun w => .listDeployments w[0],
    plain ["rename"] ["app", "current-name", "new-name"] fun w =>
      .renameDeployment w[0] w[1] w[2],
    plain ["rm", "remove"] ["app", "name"] fun w => .removeDeployment w[0] w[1],
    plain ["history", "h"] ["app", "deployment"] fun w => .history w[0] w[1],
    plain ["clear"] ["app", "deployment"] fun w => .clearHistory w[0] w[1]
  ]

def init : Member :=
  command ["init"] [.account, .force] [] fun g _ => .init (g.value? .account) (g.Has .force)

def release : Member :=
  command ["release"] ([.deployment, .allowDuplicate] ++ CommandOption.metadata)
    [operand "app", ⟨"content", false⟩, operand "target-binary-version"] fun g w =>
      .release w[0] ((g.value? .deployment).getD Action.defaultDeployment) ⟨w[1]⟩ w[2]
        (Action.releaseOptions g)

def patch : Member :=
  command ["patch"] ([.label, .targetVersion] ++ CommandOption.metadata)
    [operand "app", operand "deployment"] fun g w =>
      .request ((Action.patchOptions g).map (.patch w[0] w[1]))

def promote : Member :=
  command ["promote"] ([.targetVersion, .allowDuplicate] ++ CommandOption.metadata)
    [operand "app", operand "source-deployment", operand "dest-deployment"] fun g w =>
      .request ((Action.promoteOptions g).map (.promote w[0] w[1] w[2]))

def rollback : Member :=
  command ["rollback"] [.targetRelease] [operand "app", operand "deployment"] fun g w =>
    .ask (.rollback w[0] w[1] ((g.value? .targetRelease).map Label.mk))

def grammar : Grammar Invocation :=
  .group (.version :: CommandOption.common)
    [init, apps, collaborators, deployments, release, patch, promote, rollback]

def ofWords (words : List String) : Except Halt Invocation :=
  grammar.ofWords words

end Invocation
end AirRelease
