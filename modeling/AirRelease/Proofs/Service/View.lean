import AirRelease.Proofs.Registry.View
import AirRelease.Proofs.Service.Effect

namespace AirRelease

-- Two memories look the same to an account. The keys are those of all deployments that it can see or
-- may come to see.
structure Memory.LooksLike (account : Email) (keys : List AccessKey) (s t : Memory) : Prop where
  apps : s.apps.visible account = t.apps.visible account
  known : ∀ k ∈ (s.apps.seen account).keys, k ∈ keys
  histories : ∀ k ∈ keys, s.history k = t.history k
  held : ∀ target, target.Good (· ∈ keys) → (target ∈ s.held ↔ target ∈ t.held)

-- The request does not ask what another account sees.
def Request.Discreet : Request → Prop
  | .addCollaborator _ _ | .transferApp _ _ => False
  | _ => True

namespace Memory

variable {s t : Memory} {account : Email} {keys : List AccessKey}

namespace LooksLike

theorem hold (same : s.LooksLike account keys t) (target : LockTarget) :
    { s with held := target :: s.held }.LooksLike account keys { t with held := target :: t.held } where
  apps := same.apps
  known := same.known
  histories := same.histories
  held other good := by simp [same.held other good]

theorem unlock (same : s.LooksLike account keys t) (target : LockTarget) :
    (s.unlock target).LooksLike account keys (t.unlock target) where
  apps := same.apps
  known := same.known
  histories := same.histories
  held other good := by simp [Memory.unlock, same.held other good]

theorem setHistory (same : s.LooksLike account keys t) (key : AccessKey) (h : History) :
    (s.setHistory key h).LooksLike account keys (t.setHistory key h) where
  apps := same.apps
  known := same.known
  histories other mem := by
    by_cases eq : other = key
    case pos => rw [eq, history_setHistory_self, history_setHistory_self]
    case neg => rw [history_setHistory_of_ne s eq, history_setHistory_of_ne t eq, same.histories other mem]
  held := same.held

theorem eraseHistory (same : s.LooksLike account keys t) (key : AccessKey) :
    (s.eraseHistory key).LooksLike account keys (t.eraseHistory key) where
  apps := same.apps
  known := same.known
  histories other mem := by
    by_cases eq : other = key
    case pos => rw [eq, history_eraseHistory_self, history_eraseHistory_self]
    case neg => rw [history_eraseHistory_of_ne s eq, history_eraseHistory_of_ne t eq, same.histories other mem]
  held := same.held

end LooksLike

end Memory

section Service

variable {service : Service (StateM Memory)} (on : service.store = Memory.store) {keys : List AccessKey}
  {α : Type} {P : α → Prop}

namespace Service

-- The service's account cannot tell two runs of the computation apart.
def Steady (service : Service (StateM Memory)) (keys : List AccessKey) (x : StateM Memory α) : Prop :=
  Agree (Memory.LooksLike service.account keys) (Memory.LooksLike service.account keys) (fun _ => True) x x

-- The same, and only for a result that is passed on something has to be known.
def SteadyT (service : Service (StateM Memory)) (keys : List AccessKey) (P : α → Prop)
    (x : ExceptT CommandError (StateM Memory) α) : Prop :=
  AgreeT (Memory.LooksLike service.account keys) P x x

theorem steady_deployment {app : App} (known : ∀ d ∈ app.deployments, d.key ∈ keys) (name : String) :
    service.SteadyT keys (fun d => d.key ∈ keys)
      (liftM ((app.deployment name).mapError CommandError.registry)) := by
  refine Agree.pure fun d ok => ?_
  exact known d (List.mem_of_find?_eq_some (Registry.deployment_eq_ok.mp (mapError_eq_ok.mp ok)))

include on

theorem steady_acquire {target : LockTarget} (good : target.Good (· ∈ keys)) (timeout : Duration)
    (busy : LockBusy) : service.Steady keys (service.store.acquire timeout target busy) := by
  intro s t same
  rw [on, Memory.acquire_apply, Memory.acquire_apply]
  by_cases taken : target ∈ s.held
  case pos =>
    rw [if_pos taken, if_pos ((same.held target good).mp taken)]
    exact ⟨_, _, _, rfl, rfl, trivial, same⟩
  case neg =>
    rw [if_neg taken, if_neg (taken ∘ (same.held target good).mpr)]
    exact ⟨_, _, _, rfl, rfl, trivial, same.hold target⟩

theorem steady_unlock (target : LockTarget) : service.Steady keys (service.store.unlock target) := by
  rw [on]
  exact fun s t same => ⟨(), _, _, rfl, rfl, trivial, same.unlock target⟩

theorem steady_loadHistory {key : AccessKey} (mem : key ∈ keys) :
    service.SteadyT keys (fun _ => True) (stored (service.store.loadHistory key)) := by
  refine .stored (P := fun _ => True) fun s t same => ?_
  rw [on]
  refine ⟨.ok (s.history key), s, t, rfl, ?_, fun _ _ => trivial, same⟩
  rw [same.histories key mem]
  rfl

theorem steady_saveHistory (key : AccessKey) (h : History) :
    service.SteadyT keys (fun _ => True) (stored (service.store.saveHistory key h)) := by
  refine .stored (P := fun _ => True) fun s t same => ?_
  rw [on]
  exact ⟨.ok (), _, _, rfl, rfl, fun _ _ => trivial, same.setHistory key h⟩

theorem steady_withLock {target : LockTarget} {busy : LockBusy} {x : ExceptT CommandError (StateM Memory) α}
    (good : target.Good (· ∈ keys)) (steady : service.SteadyT keys P x) :
    service.SteadyT keys P (service.withLock target busy x) := by
  refine Agree.bind (steady_acquire on good _ _) fun r _ => ?_
  cases r with
  | error => exact .pure nofun
  | ok =>
    refine Agree.bind steady fun r passed => ?_
    exact Agree.bind (steady_unlock on target) fun _ _ => .pure passed

-- The registries may differ, but the operation does not see it.
theorem steady_updateRegistry {f : Registry → Except RegistryError (α × Registry)} {c : Registry.Call}
    (blind : Registry.Blind service.account f) (carries : ∀ r, (f r).map (·.2) = r.outcome c)
    (new : ∀ k ∈ c.keys, k ∈ keys)
    (gives : ∀ r a r', (∀ k ∈ (r.seen service.account).keys, k ∈ keys) → f r = .ok (a, r') → P a) :
    service.SteadyT keys P (service.updateRegistry f) := by
  refine steady_withLock on trivial fun s t same => ?_
  rw [rewriteApps_apply on, rewriteApps_apply on]
  have watched := blind.congr same.apps
  rcases done : f s.apps with e | ⟨a, r⟩ <;> rcases done' : f t.apps with e' | ⟨a', r'⟩ <;>
    rw [done, done'] at watched
  case error.error =>
    cases watched
    exact ⟨_, s, t, rfl, rfl, by simp [Passed], same⟩
  case error.ok | ok.error => cases watched
  case ok.ok =>
    obtain ⟨rfl, visible⟩ := Prod.mk.inj (Except.ok.inj watched)
    have same' : { s with apps := r }.LooksLike service.account keys { t with apps := r' } := {
      apps := visible
      known := fun k mem => (blind.mem_keys carries done mem).elim (same.known k) (new k)
      histories := same.histories
      held := same.held
    }
    refine ⟨.ok a, _, _, rfl, rfl, fun _ eq => ?_, same'⟩
    cases eq
    exact gives s.apps a r same.known done

theorem steady_findApp (app : String) :
    service.SteadyT keys (fun found => ∀ d ∈ found.deployments, d.key ∈ keys) (service.findApp app) := by
  intro s t same
  rw [findApp_apply on, findApp_apply on, ← Registry.app_congr same.apps]
  refine ⟨_, s, t, rfl, rfl, fun found ok d mem => ?_, same⟩
  exact same.known _ (Registry.mem_keys_of_app (mapError_eq_ok.mp ok) mem)

theorem steady_findDeployment (app deployment : String) :
    service.SteadyT keys (fun d => d.key ∈ keys) (service.findDeployment app deployment) :=
  .bind (steady_findApp on app) fun _ known => steady_deployment known deployment

theorem steady_summaries {ds : List Deployment} (known : ∀ d ∈ ds, d.key ∈ keys) :
    service.SteadyT keys (fun _ => True) (service.summaries ds) := by
  induction ds with
  | nil => exact .pure trivial
  | cons d rest ih =>
    obtain ⟨first, known⟩ := List.forall_mem_cons.mp known
    refine .bind (steady_loadHistory on first) fun _ _ => ?_
    exact .bind (ih known) fun _ _ => .pure trivial

theorem steady_updateHistory {d : Deployment} (known : d.key ∈ keys)
    (f : History → Except ReleaseError (α × History)) :
    service.SteadyT keys (fun _ => True) (service.updateHistory d f) := by
  refine steady_withLock on known ?_
  refine .bind (steady_loadHistory on known) fun before _ => ?_
  refine .bind (.lift _) fun (a, after) _ => ?_
  dsimp only
  split
  case isTrue => exact .bind (steady_saveHistory on d.key after) fun _ _ => .pure trivial
  case isFalse => exact .pure trivial

theorem steady_dropHistory {d : Deployment} (known : d.key ∈ keys) :
    service.Steady keys (service.dropHistory d) := by
  have good : (LockTarget.history d.key).Good (· ∈ keys) := known
  refine Agree.bind (steady_acquire on good _ _) fun r _ => ?_
  cases r with
  | error => exact .pure trivial
  | ok =>
    have delete : service.Steady keys (service.store.deleteHistory d.key) := by
      rw [on]
      exact fun s t same => ⟨.ok (), _, _, rfl, rfl, trivial, same.eraseHistory d.key⟩
    refine Agree.bind delete fun deleted _ => ?_
    refine Agree.bind (steady_unlock on _) fun _ _ => ?_
    cases deleted <;> exact .pure trivial

theorem steady_dropHistories {ds : List Deployment} (known : ∀ d ∈ ds, d.key ∈ keys) :
    service.Steady keys (service.dropHistories ds) := by
  induction ds with
  | nil => exact .pure trivial
  | cons d rest ih =>
    obtain ⟨first, known⟩ := List.forall_mem_cons.mp known
    refine .bind (steady_dropHistory on first) fun _ _ => ?_
    exact .bind (ih known) fun _ _ => .pure trivial

theorem steady_removed (request : Request) :
    service.SteadyT keys (fun ds => ∀ d ∈ ds, d.key ∈ keys) (service.removed request) := by
  cases request
  case removeApp name =>
    refine .bind (steady_updateRegistry on (P := fun app => ∀ d ∈ app.deployments, d.key ∈ keys)
      (c := .removeApp service.account name) Registry.blind_removeApp (fun _ => rfl) nofun
      fun r app r' known ok d mem => ?_) fun _ known => .pure known
    exact known _ (Registry.mem_keys_of_app (Registry.removeApp_eq_ok.mp ok).1.1 mem)
  case removeDeployment app name =>
    refine .bind (steady_updateRegistry on (P := fun d => d.key ∈ keys)
      (c := .removeDeployment service.account app name) Registry.blind_removeDeployment (fun _ => rfl) nofun
      fun r d r' known ok => ?_) fun _ known => .pure (List.forall_mem_singleton.mpr known)
    obtain ⟨found, ⟨at_, _⟩, target, _⟩ := Registry.removeDeployment_eq_ok.mp ok
    have mem := List.mem_of_find?_eq_some (Registry.deployment_eq_ok.mp target)
    exact known _ (Registry.mem_keys_of_app at_ mem)
  all_goals exact .pure nofun

section Reply

variable {o : Occasion} {request : Request} (discreet : request.Discreet)
  (new : ∀ k ∈ service.keys o request, k ∈ keys)
include discreet new

theorem steady_reply : service.SteadyT keys (fun _ => True) (service.reply o request) := by
  have found {β : Type} (app deployment) {f : Deployment → ExceptT CommandError (StateM Memory) β}
      (next : ∀ d, d.key ∈ keys → service.SteadyT keys (fun _ => True) (f d)) :
      service.SteadyT keys (fun _ => True) (service.findDeployment app deployment >>= f) :=
    .bind (steady_findDeployment on app deployment) next
  have changed {f : Registry → Except RegistryError Registry} {c : Registry.Call}
      (blind : Registry.Blind service.account fun r => return (Reply.done, ← f r))
      (carries : ∀ r, f r = r.outcome c) (none : c.keys = []) :
      service.SteadyT keys (fun _ => True) (service.changeRegistry f) := by
    refine steady_updateRegistry on (c := c) blind (fun r => ?_) (by simp [none]) fun _ _ _ _ _ => trivial
    rw [← carries]
    cases f r <;> rfl
  cases request
  case addApp name =>
    refine .bind (.lift _) fun name _ => ?_
    exact .bind (steady_updateRegistry on (P := fun _ => True)
      (c := .addApp service.account name service.deployments o.keys) Registry.blind_addApp (fun _ => rfl) new
      fun _ _ _ _ _ => trivial) fun _ _ => .pure trivial
  case listApps =>
    have listed (s : Memory) : (service.reply o .listApps).run s =
        (.ok (.apps ((s.apps.visible service.account).map App.summary)), s) := by
      rw [reply, run_bind_apply, stored_apply, on]
      rfl
    intro s t same
    rw [listed, listed, same.apps]
    exact ⟨_, s, t, rfl, rfl, fun _ _ => trivial, same⟩
  case renameApp old _ =>
    refine .bind (.lift _) fun new _ => ?_
    exact changed (c := .renameApp service.account old new) Registry.blind_renameApp (fun _ => rfl) rfl
  case transferApp | addCollaborator => exact discreet.elim
  case listCollaborators => exact .bind (steady_findApp on _) fun _ _ => .pure trivial
  case removeCollaborator app _ =>
    refine .bind (.lift _) fun email _ => ?_
    exact changed (c := .removeCollaborator service.account app email) Registry.blind_removeCollaborator
      (fun _ => rfl) rfl
  case addDeployment app _ =>
    refine .bind (.lift _) fun name _ => ?_
    exact .bind (steady_updateRegistry on (P := fun _ => True)
      (c := .addDeployment service.account app name (o.keys 0)) Registry.blind_addDeployment (fun _ => rfl) new
      fun _ _ _ _ _ => trivial) fun _ _ => .pure trivial
  case listDeployments =>
    refine .bind (steady_findApp on _) fun _ known => ?_
    exact .bind (steady_summaries on known) fun _ _ => .pure trivial
  case renameDeployment app old _ =>
    refine .bind (.lift _) fun new _ => ?_
    exact changed (c := .renameDeployment service.account app old new) Registry.blind_renameDeployment
      (fun _ => rfl) rfl
  case history => exact found _ _ fun _ known => .bind (steady_loadHistory on known) fun _ _ => .pure trivial
  case clearHistory => exact found _ _ fun _ known => steady_updateHistory on known _
  case release =>
    refine found _ _ fun d known => .bind (.lift _) fun version _ => .bind (.lift _) fun bundle _ => ?_
    exact .bind (steady_updateHistory on known _) fun _ _ => .pure trivial
  case patch =>
    exact found _ _ fun d known => .bind (steady_updateHistory on known _) fun _ _ => .pure trivial
  case promote =>
    refine .bind (steady_findApp on _) fun app all => ?_
    refine .bind (steady_deployment all _) fun source known => ?_
    refine .bind (steady_deployment all _) fun target known' => ?_
    refine .bind (steady_loadHistory on known) fun h _ => ?_
    exact .bind (steady_updateHistory on known' _) fun _ _ => .pure trivial
  case rollback =>
    exact found _ _ fun d known => .bind (steady_updateHistory on known _) fun _ _ => .pure trivial
  case removeApp => exact .pure trivial
  case removeDeployment => exact .pure trivial

theorem steady_handle : service.Steady keys (service.handle o request) := by
  refine Agree.bind (steady_removed on request) fun r known => ?_
  cases r with
  | error => exact .pure trivial
  | ok ds =>
    refine Agree.bind (steady_dropHistories on (known ds rfl)) fun _ _ => ?_
    exact Agree.bind (steady_reply on discreet new) fun _ _ => .pure trivial

end Reply

end Service

end Service

namespace Turn

variable {account : Email} {turn : Turn} {turns : List Turn} {keys : List AccessKey}

theorem steady_turn (own : turn.account = account) (discreet : turn.request.Discreet)
    (new : ∀ k ∈ turn.newKeys, k ∈ keys) :
    Agree (Memory.LooksLike account keys) (Memory.LooksLike account keys) (fun _ => True) turn.onMemory
      turn.onMemory := by
  subst own
  have on : (turn.service Memory.store).store = Memory.store := rfl
  exact Service.steady_handle on discreet new

theorem steady_turns (own : ∀ turn ∈ turns, turn.account = account)
    (discreet : ∀ turn ∈ turns, turn.request.Discreet) (new : ∀ turn ∈ turns, ∀ k ∈ turn.newKeys, k ∈ keys) :
    Agree (Memory.LooksLike account keys) (Memory.LooksLike account keys) (fun _ => True) (turns.mapM onMemory)
      (turns.mapM onMemory) :=
  .mapM fun turn mem => steady_turn (own turn mem) (discreet turn mem) (new turn mem)

end Turn

-- The two stores may hold whatever else. What holds of two memories holds of two directories as well.
theorem Turn.runs_look_alike {account : Email} {keys : List AccessKey} {turns : List Turn} {s t : Memory}
    (own : ∀ turn ∈ turns, turn.account = account) (discreet : ∀ turn ∈ turns, turn.request.Discreet)
    (new : ∀ turn ∈ turns, ∀ k ∈ turn.newKeys, k ∈ keys) (same : s.LooksLike account keys t) :
    (turns.mapM onMemory s).1 = (turns.mapM onMemory t).1 ∧
      (turns.mapM onMemory s).2.LooksLike account keys (turns.mapM onMemory t).2 ∧
      ∀ (a a' : Approach) (h h' : Host) (all : List AccessKey), keys ⊆ all →
        (∀ turn ∈ turns, turn.Suits a.root all ∧ turn.Suits a'.root all) →
        a.Matches (· ∈ all) none s h → a'.Matches (· ∈ all) none t h' →
        (turns.mapM (onHost a.root) h).1 = (turns.mapM (onHost a'.root) h').1 ∧
          a.Matches (· ∈ all) none (turns.mapM onMemory s).2 (turns.mapM (onHost a.root) h).2 ∧
          a'.Matches (· ∈ all) none (turns.mapM onMemory t).2 (turns.mapM (onHost a'.root) h').2 := by
  obtain ⟨answers, s', t', ran, ran', _, same'⟩ := steady_turns own discreet new s t same
  rw [ran, ran']
  refine ⟨rfl, same', fun a a' h h' all sub suits holds holds' => ?_⟩
  have new (turn) (mem : turn ∈ turns) (k) (given : k ∈ turn.newKeys) : k ∈ all := sub (new turn mem k given)
  obtain ⟨_, _, _, first, onHost, _, holds⟩ :=
    agree_turns (fun turn mem => (suits turn mem).1) new s h holds
  obtain ⟨_, _, _, first', onHost', _, holds'⟩ :=
    agree_turns (fun turn mem => (suits turn mem).2) new t h' holds'
  cases ran.symm.trans first
  cases ran'.symm.trans first'
  rw [onHost, onHost']
  exact ⟨rfl, holds, holds'⟩

theorem canonical_bob : Email.Canonical ⟨"bob@example.com"⟩ := by
  rw [Email.Canonical]
  decide +kernel

-- Bob makes an app that Ann does not see.
def bobsTurn : Turn :=
  { firstTurn with
    account := ⟨"bob@example.com"⟩
    keys _ := ⟨"k2"⟩ }

theorem suits_bobsTurn : bobsTurn.Suits toNewData.root [⟨"k1"⟩] :=
  { suits_firstTurn with account := canonical_bob }

theorem Turn.Suits.cons {turn : Turn} {root : Path} {keys : List AccessKey} {key : AccessKey}
    (suits : turn.Suits root keys) (usable : (turn.directory root).Lockable (.history key)) :
    turn.Suits root (key :: keys) :=
  { suits with keys := List.forall_mem_cons.mpr ⟨usable, suits.keys⟩ }

-- Ann releases something of her app, once with Bob's app of the same name before it.
theorem Turn.runs_look_alike_unseen :
    let ann : Email := ⟨"ann@example.com"⟩
    let s := ([bobsTurn, firstTurn].mapM onMemory .empty).2
    let t := ([firstTurn].mapM onMemory .empty).2
    let h := ([bobsTurn, firstTurn].mapM (onHost toNewData.root) bare).2
    let h' := ([firstTurn].mapM (onHost toNewData.root) bare).2
    s.apps.apps.map (·.name.text) = ["App", "App"] ∧ t.apps.apps.map (·.name.text) = ["App"] ∧
      s.LooksLike ann [⟨"k1"⟩] t ∧ ([secondTurn].mapM onMemory s).1 = ([secondTurn].mapM onMemory t).1 ∧
      (∀ r ∈ ([secondTurn].mapM onMemory s).1, r.result.isOk) ∧
      ([secondTurn].mapM onMemory s).2.LooksLike ann [⟨"k1"⟩] ([secondTurn].mapM onMemory t).2 ∧
      ([secondTurn].mapM (onHost toNewData.root) h).1 = ([secondTurn].mapM (onHost toNewData.root) h').1 := by
  intro ann s t h h'
  have same : s.LooksLike ann [⟨"k1"⟩] t := by
    constructor
    case apps | known | histories => decide +kernel
    case held => exact fun _ _ => Iff.rfl
  have new : ∀ turn ∈ [secondTurn], ∀ k ∈ turn.newKeys, k ∈ [⟨"k1"⟩] := by decide
  have bob : bobsTurn.Suits toNewData.root [⟨"k2"⟩, ⟨"k1"⟩] :=
    suits_bobsTurn.cons ⟨_, rfl, by decide +kernel, by decide +kernel⟩
  have first : firstTurn.Suits toNewData.root [⟨"k2"⟩, ⟨"k1"⟩] :=
    suits_firstTurn.cons ⟨_, rfl, by decide +kernel, by decide +kernel⟩
  have second : secondTurn.Suits toNewData.root [⟨"k2"⟩, ⟨"k1"⟩] :=
    suits_secondTurn.cons ⟨_, rfl, by decide +kernel, by decide +kernel⟩
  have start : toNewData.Matches (· ∈ [⟨"k2"⟩, ⟨"k1"⟩]) none Memory.empty bare :=
    ⟨on_bare, absent_bare.mirrors, rfl, nofun, fun _ => nofun⟩
  have holds : toNewData.Matches (· ∈ [⟨"k2"⟩, ⟨"k1"⟩]) none s h := by
    have suits : ∀ turn ∈ [bobsTurn, firstTurn], turn.Suits toNewData.root [⟨"k2"⟩, ⟨"k1"⟩] := by
      simp [bob, first]
    obtain ⟨_, _, _, ran, ran', _, holds⟩ := agree_turns suits (by decide) _ _ start
    simpa only [s, h, ran, ran'] using holds
  have holds' : toNewData.Matches (· ∈ [⟨"k2"⟩, ⟨"k1"⟩]) none t h' := by
    have suits : ∀ turn ∈ [firstTurn], turn.Suits toNewData.root [⟨"k2"⟩, ⟨"k1"⟩] := by simp [first]
    obtain ⟨_, _, _, ran, ran', _, holds⟩ := agree_turns suits (by decide) _ _ start
    simpa only [t, h', ran, ran'] using holds
  have own : ∀ turn ∈ [secondTurn], turn.account = ann := by simp [secondTurn, firstTurn, ann]
  have discreet : ∀ turn ∈ [secondTurn], turn.request.Discreet := by simp [secondTurn, Request.Discreet]
  obtain ⟨answers, same', onHosts⟩ := runs_look_alike own discreet new same
  obtain ⟨onHosts, _⟩ :=
    onHosts toNewData toNewData h h' _ (List.subset_cons_self ..) (by simp [second]) holds holds'
  exact ⟨by decide +kernel, by decide +kernel, same, answers, by decide +kernel, same', onHosts⟩

end AirRelease
