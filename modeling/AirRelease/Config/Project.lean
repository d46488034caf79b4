import AirRelease.Config
import AirRelease.Effects
import AirRelease.Files.Path
import AirRelease.Record

namespace AirRelease

inductive ConfigError
  | alreadyThere (path : Path)
  | notFound (directory : Path)
  | noAccount
  | invalid (description : String)
  | inaccessible (fault : Fault)
  | unreadable (e : ReadError)
deriving DecidableEq

def ConfigError.message : ConfigError → String
  | .alreadyThere path => s!"file already exists: {path.text}"
  | .notFound directory =>
    s!"configuration file not found in {directory.text}; run `otaflow init` first"
  | .noAccount => "no account configured; set `account` in otaflow.yml or OTAFLOW_ACCOUNT"
  | .invalid description => s!"invalid configuration: {description}"
  | .inaccessible fault => s!"I/O error: {fault.message}"
  | .unreadable .malformed => "YAML parse error"
  | .unreadable (.refused message) => s!"YAML parse error: {message}"

namespace Config

def fileName : Path :=
  ⟨"otaflow.yml"⟩

-- Where a configuration is looked for, in this order.
def candidates : List Path :=
  [fileName, ⟨"otaflow.yaml"⟩, ⟨".otaflow/config.yml"⟩]

def placeholder : String :=
  "you@example.com"

def template (account : String) : String :=
  "# Account that owns the apps you create (overridden by OTAFLOW_ACCOUNT)\n" ++
  "account: " ++ account ++ "\n" ++
  "\n" ++
  "# Where apps and release histories are stored\n" ++
  "data_dir: " ++ defaultDataDirectory.text ++ "\n" ++
  "\n" ++
  "# How long to wait for another command working on the same deployment\n" ++
  "lock_timeout: 30s\n" ++
  "\n" ++
  "# Deployments created with every new app\n" ++
  "default_deployments:\n" ++
  String.join (defaultDeployments.map fun name => "  - " ++ name.text ++ "\n")

-- The account that a variable of the environment names, or else that of the configuration.
def acting (c : Config) (override : Option String) : Except ConfigError Email :=
  match override with
  | some value =>
    if Text.trim value.toList = [] then configured
    else (Email.ofText value).mapError fun e => .invalid s!"OTAFLOW_ACCOUNT: {e.message}"
  | none => configured
where
  configured : Except ConfigError Email :=
    c.account.elim (.error .noAccount) .ok

variable {m : Type → Type} [Monad m] [Disk m]

def load (path : Path) : m (Except ConfigError Config) := do
  match ← Disk.readText path with
  | .error fault => return .error (.inaccessible fault)
  | .ok text => return (ofText text).mapError .unreadable

-- A relative data directory is below the project's directory.
def relativeTo (directory : Path) (c : Config) : Config :=
  { c with dataDirectory := directory.join c.dataDirectory }

-- Loads the first configuration that is there.
def discover (directory : Path) : m (Except ConfigError Config) :=
  go candidates
where
  go : List Path → m (Except ConfigError Config)
    | [] => return .error (.notFound directory)
    | name :: rest => do
      let path := directory.join name
      if ← Disk.fileExists path then
        return (← load path).map (relativeTo directory)
      else go rest

-- Writes a first configuration and gives its path. With `force`, one that is there is replaced.
def init (directory : Path) (account : Option String) (force : Bool) :
    m (Except ConfigError Path) := do
  let path := directory.join fileName
  if (← Disk.fileExists path) && !force then return .error (.alreadyThere path)
  match account.mapM Email.ofText with
  | .error e => return .error (.invalid e.message)
  | .ok email =>
    match ← Disk.write path (template (email.elim placeholder (·.text))).toUTF8 with
    | .error fault => return .error (.inaccessible fault)
    | .ok () => return .ok path

end Config
end AirRelease
