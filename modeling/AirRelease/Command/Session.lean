import AirRelease.Command.Report
import AirRelease.Command.Action
import AirRelease.Config.Project
import AirRelease.Store.Directory

namespace AirRelease

structure Session where
  directory : Path
  -- The account that the environment names.
  account : Option String
  -- Who takes locks.
  holder : String
  process : Nat
  -- Not in the name of any file.
  mark : String
  -- Keys that are not in use.
  keys : Nat → AccessKey

inductive ActionError
  | config (e : ConfigError)
  | command (e : CommandError)
deriving DecidableEq

def ActionError.message : ActionError → String
  | .config e => e.message
  | .command e => e.message

namespace Session

def programName : String :=
  "otaflow"

def programVersion : String :=
  "0.1.0"

def usage : List String :=
  ("Usage: " ++ programName ++ " [options] <command>") ::
    (Invocation.grammar.synopses programName).map fun line => "  " ++ line

variable {m : Type → Type} [Monad m] [Disk m] [Clock m] [Console m]

def store (s : Session) (config : Config) : Store m :=
  Directory.store ⟨config.dataDirectory, s.holder, s.process, s.mark⟩

-- The service that the project's configuration describes.
def service (s : Session) : ExceptT ActionError m (Service m) := do
  let found ← Config.discover (m := m) s.directory
  let config ← found.mapError ActionError.config
  let account ← (config.acting s.account).mapError ActionError.config
  return ⟨s.store config, account, config.deployments, config.lockTimeout⟩

def ask (s : Session) (mode : OutputMode) (service : Service m) (r : Request) :
    ExceptT ActionError m Reply := do
  let now ← Clock.now (m := m)
  let response ← service.handle ⟨now.milliseconds, s.keys⟩ r
  let reply ← response.result.mapError ActionError.command
  response.warnings.forM fun w => Console.tell (m := m) mode (.warning w.message)
  return reply

def carryOut (s : Session) (mode : OutputMode) : Action → ExceptT ActionError m Unit
  | .init account force => do
    let created ← Config.init (m := m) s.directory account force
    let path ← created.mapError ActionError.config
    Console.tell (m := m) mode (.success s!"Created {path.text}")
  | .request r => do
    let service ← s.service
    let r ← r.mapError ActionError.command
    let reply ← s.ask mode service r
    (r.report reply).forM (Console.tell (m := m) mode ·)
  | .release app deployment content version options => do
    let service ← s.service
    let options ← options.mapError ActionError.command
    Console.tell (m := m) mode (.progress s!"Releasing {content.text} to {deployment}...")
    let bundle ← Bundle.load (m := m) content
    match ← s.ask mode service (.release app deployment bundle version options) with
    | .outcome o =>
      let kind := if ← Disk.isDirectory (m := m) content then .directory else .file
      let message := Success.released content.text kind deployment app
      (o.report deployment message).forM (Console.tell (m := m) mode ·)
    | _ => return

-- The exit status: zero if the action has been carried out.
def run (s : Session) (i : Invocation) : m UInt32 := do
  match ← (s.carryOut i.mode i.action).run with
  | .ok () => return 0
  | .error e =>
    Console.tell i.mode (.failure e.message)
    return 1

-- A command line that is not in the grammar has an exit status of its own.
def runWords (s : Session) (words : List String) : m UInt32 := do
  match Invocation.ofWords words with
  | .ok i => s.run i
  | .error .version =>
    Console.write (.output s!"{programName} {programVersion}")
    return 0
  | .error .help =>
    usage.forM fun line => Console.write (.output line)
    return 0
  | .error .misuse =>
    usage.forM fun line => Console.write (.error line)
    return 2

end Session
end AirRelease
