import AirRelease.Proofs.History.Step
import AirRelease.Proofs.Registry.Keys
import AirRelease.Proofs.Service.Interchange
import AirRelease.Proofs.Service.Unchanged

namespace AirRelease

-- The deployment that an account means by two names.
def Registry.target (r : Registry) (account : Email) (app deployment : String) :
    Except RegistryError Deployment := do
  (← r.app account app).deployment deployment

namespace Memory

-- A history is saved only if it has changed.
def keepHistory (s : Memory) (key : AccessKey) (h : History) : Memory :=
  if h ≠ s.history key then s.setHistory key h else s

-- The registry has been called.
def afterCall (s : Memory) (c : Registry.Call) : Memory :=
  { s with apps := s.apps.after c }

-- A deployment's history has been called.
def afterUpdate (s : Memory) : Deployment × History.Call → Memory
  | (d, c) => s.keepHistory d.key ((s.history d.key).after c)

def eraseHistories (s : Memory) (keys : List AccessKey) : Memory :=
  keys.foldl eraseHistory s

-- Waiting does not help.
theorem poll_apply (s : Memory) (target : LockTarget) (busy : LockBusy) (last : Duration) (n : Nat) :
    store.poll target busy last n s =
      if target ∈ s.held then (.error (.busy busy), s) else (.ok (), { s with held := target :: s.held }) := by
  have tried : store.tryLock target s = (.ok (s.tryLock target).1, (s.tryLock target).2) := rfl
  have waited (d : Duration) : (store.pause d s).2 = s := rfl
  by_cases taken : target ∈ s.held
  case pos =>
    simp only [tryLock, if_pos taken] at tried
    rw [if_pos taken]
    induction n with
    | zero =>
      simp only [Store.poll, bind_apply, tried]
      split
      case isTrue => rfl
      case isFalse => simp only [bind_apply, waited, tried, pure_apply]
    | succ n ih => simpa only [Store.poll, bind_apply, tried, waited] using ih
  case neg =>
    simp only [tryLock, if_neg taken] at tried
    rw [if_neg taken]
    cases n <;> simp only [Store.poll, bind_apply, tried, pure_apply]

theorem acquire_apply (s : Memory) (timeout : Duration) (target : LockTarget) (busy : LockBusy) :
    store.acquire timeout target busy s =
      if target ∈ s.held then (.error (.busy busy), s) else (.ok (), { s with held := target :: s.held }) :=
  poll_apply s target busy _ _

section Histories

variable {s : Memory} {key other : AccessKey} {h : History} {keys : List AccessKey}

theorem history_keepHistory_self : (s.keepHistory key h).history key = h := by
  unfold keepHistory
  split
  case isTrue => exact history_setHistory_self ..
  case isFalse same => exact (Decidable.not_not.mp same).symm

theorem history_keepHistory_of_ne (ne : other ≠ key) : (s.keepHistory key h).history other = s.history other := by
  unfold keepHistory
  split
  case isTrue => exact history_setHistory_of_ne s ne h
  case isFalse => rfl

theorem apps_keepHistory : (s.keepHistory key h).apps = s.apps := by
  unfold keepHistory
  split <;> rfl

theorem held_keepHistory : (s.keepHistory key h).held = s.held := by
  unfold keepHistory
  split <;> rfl

theorem mem_histories_keepHistory {e : AccessKey × History} (mem : e ∈ (s.keepHistory key h).histories) :
    e.1 = key ∨ e ∈ s.histories := by
  unfold keepHistory at mem
  split at mem
  case isTrue =>
    rcases List.mem_cons.mp mem with rfl | mem
    · exact .inl rfl
    · exact .inr (List.mem_of_mem_filter mem)
  case isFalse => exact .inr mem

theorem apps_eraseHistories : (s.eraseHistories keys).apps = s.apps := by
  induction keys generalizing s with
  | nil => rfl
  | cons key rest ih => exact ih

theorem held_eraseHistories : (s.eraseHistories keys).held = s.held := by
  induction keys generalizing s with
  | nil => rfl
  | cons key rest ih => exact ih

theorem history_eraseHistories_of_notMem (notMem : key ∉ keys) :
    (s.eraseHistories keys).history key = s.history key := by
  induction keys generalizing s with
  | nil => rfl
  | cons first rest ih =>
    obtain ⟨ne, notMem⟩ := List.ne_and_not_mem_of_not_mem_cons notMem
    exact (ih notMem).trans (history_eraseHistory_of_ne s ne)

-- Erasing takes packages away at most.
theorem mem_history_of_eraseHistories {p : Package} (mem : p ∈ ((s.eraseHistories keys).history key).packages) :
    p ∈ (s.history key).packages := by
  induction keys generalizing s with
  | nil => exact mem
  | cons first rest ih =>
    have mem : p ∈ ((s.eraseHistory first).history key).packages := ih mem
    by_cases same : key = first
    case pos =>
      rw [same, history_eraseHistory_self] at mem
      cases mem
    case neg => rwa [history_eraseHistory_of_ne s same] at mem

theorem mem_histories_eraseHistories {e : AccessKey × History} (mem : e ∈ (s.eraseHistories keys).histories) :
    e ∈ s.histories ∧ e.1 ∉ keys := by
  induction keys generalizing s with
  | nil => exact ⟨mem, List.not_mem_nil⟩
  | cons first rest ih =>
    obtain ⟨mem, notMem⟩ := ih mem
    obtain ⟨mem, ne⟩ := List.mem_filter.mp mem
    exact ⟨mem, List.not_mem_cons_of_ne_of_not_mem (of_decide_eq_true ne) notMem⟩

end Histories

end Memory

-- What an action makes of a store, if there is a call that changes it.
def Leaves {σ γ ε α : Type} (made : γ → σ) (s : σ) (call : Option γ) (x : ExceptT ε (StateM σ) α) : Prop :=
  (x.run s).2 = call.elim s made

section Leaves

variable {σ γ ε ε' α β : Type} {made : γ → σ} {s : σ} {call : Option γ} {x : ExceptT ε (StateM σ) α}

theorem Leaves.of_reads (reads : Reads x) : Leaves made s none x :=
  reads s

theorem Leaves.bind_pure (leaves : Leaves made s call x) (f : α → β) :
    Leaves made s call (x >>= fun a => pure (f a)) := by
  rw [Leaves, ← leaves, run_bind_apply]
  rcases x.run s with ⟨_ | _, _⟩ <;> rfl

theorem Leaves.bind {f : α → ExceptT ε (StateM σ) β} {r : Except ε' α} {error : ε' → ε} {next : α → Option γ}
    (ran : x.run s = (r.mapError error, s)) (leaves : ∀ a, r = .ok a → Leaves made s (next a) (f a)) :
    Leaves made s (r.toOption.bind next) (x >>= f) := by
  rw [Leaves, run_bind_apply, ran]
  cases r with
  | error => rfl
  | ok a => exact leaves a rfl

theorem Leaves.bind_ok {f : α → ExceptT ε (StateM σ) β} {a : α} (ran : x.run s = (.ok a, s))
    (leaves : Leaves made s call (f a)) : Leaves made s call (x >>= f) := by
  rwa [Leaves, run_bind_apply, ran]

end Leaves

-- Someone who uses a store in memory of which nobody holds a lock.
namespace Service

variable {service : Service (StateM Memory)} {s : Memory} {α : Type}

theorem acquire_idle (idle : s.held = []) (timeout : Duration) (target : LockTarget) (busy : LockBusy) :
    Memory.store.acquire timeout target busy s = (.ok (), { s with held := [target] }) := by
  rw [Memory.acquire_apply, idle, if_neg List.not_mem_nil]

theorem unlock_only (s : Memory) (target : LockTarget) :
    Memory.unlock { s with held := [target] } target = { s with held := [] } := by
  simp [Memory.unlock]

theorem unheld (idle : s.held = []) : { s with held := [] } = s := by
  rw [← idle]

variable (on : service.store = Memory.store) (idle : s.held = [])
include on

section Find

theorem findApp_apply (app : String) :
    (service.findApp app).run s = ((s.apps.app service.account app).mapError .registry, s) := by
  rw [findApp, run_bind_apply, stored_apply, on]
  rfl

theorem findDeployment_apply (app deployment : String) : (service.findDeployment app deployment).run s =
    ((s.apps.target service.account app deployment).mapError .registry, s) := by
  rw [findDeployment, run_bind_apply, findApp_apply on, Registry.target]
  cases s.apps.app service.account app <;> rfl

end Find

-- What is done under the registry's lock.
theorem rewriteApps_apply (f : Registry → Except RegistryError (α × Registry)) (s : Memory) :
    (do
      let r ← stored service.store.loadApps
      let (a, r) ← (f r).mapError CommandError.registry
      stored (service.store.saveApps r)
      return a : ExceptT CommandError (StateM Memory) α).run s =
      match f s.apps with
      | .ok (a, r) => (.ok a, { s with apps := r })
      | .error e => (.error (.registry e), s) := by
  rw [on]
  simp only [run_bind_apply, stored_apply, lift_apply, Memory.store, Except.mapError]
  cases f s.apps <;> rfl

include idle

theorem updateRegistry_idle (f : Registry → Except RegistryError (α × Registry)) :
    (service.updateRegistry f).run s =
      match f s.apps with
      | .ok (a, r) => (.ok a, { s with apps := r })
      | .error e => (.error (.registry e), s) := by
  rw [updateRegistry, withLock_apply]
  simp only [rewriteApps_apply on]
  rw [on, acquire_idle idle]
  simp only [Memory.store]
  cases f s.apps with
  | ok result =>
    obtain ⟨a, r⟩ := result
    simp only
    rw [unlock_only { s with apps := r }, unheld (s := { s with apps := r }) idle]
  | error e =>
    simp only
    rw [unlock_only, unheld idle]

theorem updateHistory_idle (d : Deployment) (f : History → Except ReleaseError (α × History)) :
    (service.updateHistory d f).run s =
      match f (s.history d.key) with
      | .ok (a, h) => (.ok a, s.keepHistory d.key h)
      | .error e => (.error (.release e), s) := by
  have put {key : AccessKey} {h : History} :
      ({ s with held := [.history d.key] }.setHistory key h).unlock (.history d.key) = s.setHistory key h := by
    rw [← unheld (s := s.setHistory key h) idle, ← unlock_only _ (.history d.key)]
    rfl
  rw [updateHistory, withLock_apply, on, acquire_idle idle]
  simp only [run_bind_apply, stored_apply, lift_apply, Memory.store, Except.mapError]
  have same : { s with held := [.history d.key] }.history d.key = s.history d.key := rfl
  simp only [same, Memory.keepHistory]
  cases f (s.history d.key) with
  | ok result =>
    obtain ⟨a, h⟩ := result
    by_cases changed : h ≠ s.history d.key
    case pos => simp only [if_pos changed, run_bind_apply, stored_apply, Except.mapError, run_pure_apply, put]
    case neg => simp only [if_neg changed, run_pure_apply, unlock_only, unheld idle]
  | error e => simp only [unlock_only, unheld idle]

theorem dropHistories_idle (ds : List Deployment) :
    service.dropHistories ds s = ([], s.eraseHistories (ds.map (·.key))) := by
  induction ds generalizing s with
  | nil => rfl
  | cons d rest ih =>
    have dropped : service.dropHistory d s = ([], s.eraseHistory d.key) := by
      rw [dropHistory, on, bind_apply, acquire_idle idle]
      simp only [bind_apply, Memory.store, pure_apply]
      rw [← unheld (s := s.eraseHistory d.key) idle, ← unlock_only _ (.history d.key)]
      rfl
    rw [dropHistories, bind_apply, dropped]
    simp only [bind_apply, pure_apply]
    rw [ih (s := s.eraseHistory d.key) idle]
    rfl

theorem leaves_updateRegistry {f : Registry → Except RegistryError (α × Registry)} {c : Registry.Call}
    (carries : ∀ r, (f r).map (·.2) = r.outcome c) :
    Leaves s.afterCall s (some c) (service.updateRegistry f) := by
  rw [Leaves, updateRegistry_idle on idle, Option.elim_some, Memory.afterCall, Registry.after, ← carries]
  cases f s.apps <;> rfl

theorem leaves_changeRegistry {f : Registry → Except RegistryError Registry} {c : Registry.Call}
    (carries : ∀ r, f r = r.outcome c) : Leaves s.afterCall s (some c) (service.changeRegistry f) := by
  refine leaves_updateRegistry on idle fun r => ?_
  rw [← carries]
  cases f r <;> rfl

theorem leaves_updateHistory {d : Deployment} {f : History → Except ReleaseError (α × History)}
    {c : History.Call} (carries : ∀ h, (f h).map (·.2) = h.outcome c) :
    Leaves s.afterUpdate s (some (d, c)) (service.updateHistory d f) := by
  rw [Leaves, updateHistory_idle on idle, Option.elim_some, Memory.afterUpdate, History.after, ← carries]
  cases f (s.history d.key) with
  | ok => rfl
  | error => exact (if_neg (not_not.mpr rfl)).symm

end Service

namespace Turn

-- The call of the registry that a turn makes, if its texts can be read.
def registryCall? (turn : Turn) : Option Registry.Call :=
  match turn.request with
  | .addApp name => do return .addApp turn.account (← (Name.ofText name).toOption) turn.deployments turn.keys
  | .renameApp old new => do return .renameApp turn.account old (← (Name.ofText new).toOption)
  | .removeApp name => some (.removeApp turn.account name)
  | .transferApp name email => do return .transferApp turn.account name (← (Email.ofText email).toOption)
  | .addCollaborator app email => do return .addCollaborator turn.account app (← (Email.ofText email).toOption)
  | .removeCollaborator app email => do
    return .removeCollaborator turn.account app (← (Email.ofText email).toOption)
  | .addDeployment app name => do
    return .addDeployment turn.account app (← (Name.ofText name).toOption) (turn.keys 0)
  | .renameDeployment app old new => do
    return .renameDeployment turn.account app old (← (Name.ofText new).toOption)
  | .removeDeployment app name => some (.removeDeployment turn.account app name)
  | _ => none

-- The call of a history that a turn makes, and the deployment that its names mean as the store stands.
def historyCall? (turn : Turn) (s : Memory) : Option (Deployment × History.Call) :=
  match turn.request with
  | .clearHistory app deployment => do
    let d ← (s.apps.target turn.account app deployment).toOption
    return (d, .clear)
  | .release app deployment content version o => do
    let d ← (s.apps.target turn.account app deployment).toOption
    let version ← (VersionRange.ofText version).toOption
    let bundle ← content.toOption
    return (d, .release bundle.hash bundle.size turn.now.milliseconds version o)
  | .patch app deployment o => do
    let d ← (s.apps.target turn.account app deployment).toOption
    return (d, .patch d.name o)
  | .promote app source deployment o => do
    let app ← (s.apps.app turn.account app).toOption
    let source ← (app.deployment source).toOption
    let d ← (app.deployment deployment).toOption
    return (d, .promote source.name (s.history source.key) o turn.now.milliseconds)
  | .rollback app deployment label => do
    let d ← (s.apps.target turn.account app deployment).toOption
    return (d, .rollback d.name label)
  | _ => none

-- A removed deployment loses its history.
def effect (turn : Turn) (s : Memory) : Memory :=
  match turn.registryCall?, turn.historyCall? s with
  | some c, _ => (s.afterCall c).eraseHistories (s.apps.dropped c)
  | none, some update => s.afterUpdate update
  | none, none => s

section Effect

variable {turn : Turn} {s : Memory} {ε α β : Type} {r : Except ε α} {error : ε → CommandError}

-- The request brings a text that has to be read first.
theorem effect_of_parsed {f : α → ExceptT CommandError (StateM Memory) β} {call : α → Registry.Call}
    (asked : turn.registryCall? = r.toOption.bind fun a => some (call a))
    (only : turn.historyCall? s = none) (keeps : ∀ a, s.apps.dropped (call a) = [])
    (leaves : ∀ a, Leaves s.afterCall s (some (call a)) (f a)) :
    ((liftM (r.mapError error) >>= f).run s).2 = turn.effect s := by
  have done : Leaves s.afterCall s turn.registryCall? (liftM (r.mapError error) >>= f) := by
    rw [asked]
    exact .bind (lift_apply _ s) fun a _ => leaves a
  rw [done, effect, only, asked]
  cases r with
  | error => rfl
  | ok a => simp only [Except.toOption, Option.bind_some, Option.elim_some, keeps]; rfl

theorem effect_of_historyCall {x : ExceptT CommandError (StateM Memory) β}
    (leaves : Leaves s.afterUpdate s (turn.historyCall? s) x) (only : turn.registryCall? = none) :
    (x.run s).2 = turn.effect s := by
  rw [leaves, effect, only]
  cases turn.historyCall? s <;> rfl

theorem effect_of_removal (f : Registry → Except RegistryError (α × Registry)) (ds : α → List Deployment)
    {c : Registry.Call} (idle : s.held = []) (asked : turn.registryCall? = some c)
    (removes : (turn.service Memory.store).removed turn.request =
      (turn.service Memory.store).updateRegistry f >>= fun a => pure (ds a))
    (replies : (turn.service Memory.store).reply turn.occasion turn.request = pure .done)
    (carries : ∀ r, (f r).map (·.2) = r.outcome c)
    (dropped : s.apps.dropped c = match f s.apps with | .ok (a, _) => (ds a).map (·.key) | .error _ => []) :
    (turn.onMemory s).2 = turn.effect s := by
  have on : (turn.service Memory.store).store = Memory.store := rfl
  rw [onMemory, Service.handle, removes, replies, effect, asked]
  simp only [bind_apply, run_bind_apply, Service.updateRegistry_idle on idle]
  rw [dropped, Memory.afterCall, Registry.after, ← carries]
  cases f s.apps with
  | error => rfl
  | ok result =>
    simp only [run_pure_apply, bind_apply, Service.dropHistories_idle (s := { s with apps := result.2 }) on idle]
    rfl

theorem state_onMemory (idle : s.held = []) : (turn.onMemory s).2 = turn.effect s := by
  have on : (turn.service Memory.store).store = Memory.store := rfl
  have change {c : Registry.Call} {f : Registry → Except RegistryError Registry}
      (carries : ∀ r, f r = r.outcome c) :
      Leaves s.afterCall s (some c) ((turn.service Memory.store).changeRegistry f) :=
    Service.leaves_changeRegistry on idle carries
  have find {call : Deployment → Option (Deployment × History.Call)} {app deployment : String}
      {f : Deployment → ExceptT CommandError (StateM Memory) Reply}
      (leaves : ∀ d, Leaves s.afterUpdate s (call d) (f d)) :
      Leaves s.afterUpdate s ((s.apps.target turn.account app deployment).toOption.bind call)
        ((turn.service Memory.store).findDeployment app deployment >>= f) :=
    .bind (Service.findDeployment_apply on app deployment) fun d _ => leaves d
  have replies (nothing : (turn.service Memory.store).removed turn.request = pure []) :
      (turn.onMemory s).2 = (((turn.service Memory.store).reply turn.occasion turn.request).run s).2 := by
    rw [onMemory, Service.handle, nothing]
    rfl
  cases asked : turn.request
  case removeApp name =>
    refine effect_of_removal (·.removeApp turn.account name) (·.deployments) idle
      (by rw [registryCall?, asked]) (by rw [asked]; rfl) (by rw [asked]; rfl) (fun _ => rfl) ?_
    rw [Registry.dropped]
    cases s.apps.removeApp turn.account name <;> rfl
  case removeDeployment app name =>
    refine effect_of_removal (·.removeDeployment turn.account app name) ([·]) idle
      (by rw [registryCall?, asked]) (by rw [asked]; rfl) (by rw [asked]; rfl) (fun _ => rfl) ?_
    rw [Registry.dropped]
    cases s.apps.removeDeployment turn.account app name <;> rfl
  -- All others drop no history.
  all_goals rw [replies (by rw [asked]; rfl), asked]
  case addApp | addDeployment =>
    refine effect_of_parsed (by rw [registryCall?, asked]; rfl) (by rw [historyCall?, asked]) (fun _ => rfl)
      fun _ => ?_
    exact .bind_pure (Service.leaves_updateRegistry on idle fun _ => rfl) _
  case renameApp | transferApp | addCollaborator | removeCollaborator | renameDeployment =>
    exact effect_of_parsed (by rw [registryCall?, asked]; rfl) (by rw [historyCall?, asked]) (fun _ => rfl)
      fun _ => change fun _ => rfl
  all_goals
    refine effect_of_historyCall ?_ (by rw [registryCall?, asked])
    rw [historyCall?, asked]
  case clearHistory => exact find fun _ => Service.leaves_updateHistory on idle fun _ => rfl
  case patch => exact find fun _ => .bind_pure (Service.leaves_updateHistory on idle fun _ => rfl) _
  case rollback => exact find fun _ => .bind_pure (Service.leaves_updateHistory on idle fun _ => rfl) _
  case release =>
    refine find fun _ => .bind (lift_apply _ s) fun _ _ => .bind (lift_apply _ s) fun _ _ => ?_
    exact .bind_pure (Service.leaves_updateHistory on idle fun _ => rfl) _
  case promote =>
    refine .bind (Service.findApp_apply on _) fun _ _ => ?_
    refine .bind (lift_apply _ s) fun source _ => .bind (lift_apply _ s) fun _ _ => ?_
    refine .bind_ok (a := s.history source.key) rfl ?_
    exact .bind_pure (Service.leaves_updateHistory on idle fun _ => rfl) _
  case listApps => exact .of_reads (.bind (Memory.restores.reads_loadApps on) fun _ => .pure _)
  case listCollaborators => exact .of_reads (.bind (Memory.restores.reads_findApp on _) fun _ => .pure _)
  case listDeployments =>
    refine .of_reads (.bind (Memory.restores.reads_findApp on _) fun _ => ?_)
    exact .bind (Memory.restores.reads_summaries on _) fun _ => .pure _
  case history =>
    refine .of_reads (.bind (Memory.restores.reads_findDeployment on _ _) fun d => ?_)
    exact .bind (Memory.restores.reads_loadHistory on d.key) fun _ => .pure _

end Effect

end Turn
end AirRelease
