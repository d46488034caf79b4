import AirRelease.Proofs.Service.Failure
import AirRelease.Proofs.Store.Storable

namespace AirRelease

variable {σ τ : Type}

-- Two computations give the same result, and take related states to related ones.
def Agree {α : Type} (R R' : σ → τ → Prop) (P : α → Prop) (x : StateM σ α) (y : StateM τ α) : Prop :=
  ∀ s t, R s t → ∃ a s' t', x s = (a, s') ∧ y t = (a, t') ∧ P a ∧ R' s' t'

def Passed {ε α : Type} (P : α → Prop) (r : Except ε α) : Prop :=
  ∀ a, r = .ok a → P a

-- Only for a result that is passed on something has to be known.
def AgreeT {ε α : Type} (R : σ → τ → Prop) (P : α → Prop) (x : ExceptT ε (StateM σ) α)
    (y : ExceptT ε (StateM τ) α) : Prop :=
  Agree R R (Passed P) x.run y.run

section Rules

variable {α β ε : Type} {R R' R'' : σ → τ → Prop} {P : α → Prop} {Q : β → Prop}

theorem Agree.pure {a : α} (holds : P a) : Agree R R P (pure a : StateM σ α) (pure a : StateM τ α) :=
  fun s t related => ⟨a, s, t, rfl, rfl, holds, related⟩

theorem Agree.bind {x : StateM σ α} {y : StateM τ α} {f : α → StateM σ β} {g : α → StateM τ β}
    (first : Agree R R' P x y) (next : ∀ a, P a → Agree R' R'' Q (f a) (g a)) :
    Agree R R'' Q (x >>= f) (y >>= g) := by
  intro s t related
  obtain ⟨a, s', t', ran, ran', holds, related'⟩ := first s t related
  rw [bind_apply, bind_apply, ran, ran']
  exact next a holds s' t' related'

theorem Agree.mapM {ι : Type} {is : List ι} {f : ι → StateM σ α} {g : ι → StateM τ α}
    (each : ∀ i ∈ is, Agree R R (fun _ => True) (f i) (g i)) :
    Agree R R (fun _ => True) (is.mapM f) (is.mapM g) := by
  induction is with
  | nil => exact .pure trivial
  | cons i is ih =>
    obtain ⟨first, each⟩ := List.forall_mem_cons.mp each
    rw [List.mapM_cons, List.mapM_cons]
    refine .bind first fun _ _ => ?_
    exact .bind (ih each) fun _ _ => .pure trivial

theorem AgreeT.pure {a : α} (holds : P a) :
    AgreeT R P (pure a : ExceptT ε (StateM σ) α) (pure a : ExceptT ε (StateM τ) α) :=
  Agree.pure fun _ eq => Except.ok.inj eq ▸ holds

theorem AgreeT.bind {x : ExceptT ε (StateM σ) α} {y : ExceptT ε (StateM τ) α}
    {f : α → ExceptT ε (StateM σ) β} {g : α → ExceptT ε (StateM τ) β} (first : AgreeT R P x y)
    (next : ∀ a, P a → AgreeT R Q (f a) (g a)) : AgreeT R Q (x >>= f) (y >>= g) := by
  rw [AgreeT, ExceptT.run_bind, ExceptT.run_bind]
  refine Agree.bind first fun r passed => ?_
  cases r with
  | error => exact .pure nofun
  | ok a => exact next a (passed a rfl)

theorem AgreeT.lift (x : Except ε α) :
    AgreeT R (x = .ok ·) (liftM x : ExceptT ε (StateM σ) α) (liftM x : ExceptT ε (StateM τ) α) :=
  Agree.pure fun _ eq => eq

theorem AgreeT.stored {x : StateM σ (Except StoreError α)} {y : StateM τ (Except StoreError α)}
    (agree : Agree R R (Passed P) x y) : AgreeT R P (Service.stored x) (Service.stored y) :=
  Agree.bind agree fun _ passed => .pure fun a eq => passed a (mapError_eq_ok.mp eq)

theorem AgreeT.deployment {Good : AccessKey → Prop} {app : App} (sound : app.Sound Good) (name : String) :
    AgreeT R (fun d => Good d.key)
      (liftM ((app.deployment name).mapError CommandError.registry) : ExceptT CommandError (StateM σ) _)
      (liftM ((app.deployment name).mapError CommandError.registry) : ExceptT CommandError (StateM τ) _) := by
  refine Agree.pure fun d ok => ?_
  exact sound.keys d (List.mem_of_find?_eq_some (Registry.deployment_eq_ok.mp (mapError_eq_ok.mp ok)))

end Rules

def LockTarget.Good (Good : AccessKey → Prop) : LockTarget → Prop
  | registry => True
  | history key => Good key

-- Two stores that answer alike while their states are related, as long as keys are good. The relation
-- says which lock is held.
structure Store.Alike (store : Store (StateM σ)) (store' : Store (StateM τ)) (Good : AccessKey → Prop)
    (R : Option LockTarget → σ → τ → Prop) : Prop where
  loadApps : ∀ held, Agree (R held) (R held) (Passed (Registry.Sound Good)) store.loadApps store'.loadApps
  saveApps : ∀ {apps} held, apps.Sound Good →
    Agree (R held) (R held) (Passed fun _ => True) (store.saveApps apps) (store'.saveApps apps)
  loadHistory : ∀ {key} held, Good key →
    Agree (R held) (R held) (Passed History.Storable) (store.loadHistory key) (store'.loadHistory key)
  saveHistory : ∀ {key h} held, Good key → h.Storable →
    Agree (R held) (R held) (Passed fun _ => True) (store.saveHistory key h) (store'.saveHistory key h)
  deleteHistory : ∀ {key} held, Good key →
    Agree (R held) (R held) (fun _ => True) (store.deleteHistory key) (store'.deleteHistory key)
  tryLock : ∀ {target}, target.Good Good →
    Agree (R none) (R (some target)) (· = .ok true) (store.tryLock target) (store'.tryLock target)
  unlock : ∀ {target}, target.Good Good →
    Agree (R (some target)) (R none) (fun _ => True) (store.unlock target) (store'.unlock target)

namespace Service

variable {m m' : Type → Type}

-- The same user's service with another store.
def withStore (s : Service m) (store : Store m') : Service m' :=
  { s with store }

-- The keys that a request may give to deployments.
def keys (s : Service m) (o : Occasion) : Request → List AccessKey
  | .addApp _ => (List.range s.deployments.eraseDups.length).map o.keys
  | .addDeployment _ _ => [o.keys 0]
  | _ => []

end Service

-- The size of the content that comes with a request.
def Request.size : Request → Nat
  | .release _ _ (.ok bundle) _ _ => bundle.size
  | _ => 0

namespace Store.Alike

variable {store' : Store (StateM τ)} {Good : AccessKey → Prop} {R : Option LockTarget → σ → τ → Prop}
  {service : Service (StateM σ)} (alike : service.store.Alike store' Good R)
include alike

theorem agree_acquire {target : LockTarget} (good : target.Good Good) (timeout : Duration) (busy : LockBusy) :
    Agree (R none) (R (some target)) (· = .ok ()) (service.store.acquire timeout target busy)
      (store'.acquire timeout target busy) := by
  rw [Store.acquire, Store.acquire]
  cases timeout.nanoseconds / pollInterval.nanoseconds
  all_goals
    refine Agree.bind (alike.tryLock good) fun r taken => ?_
    cases taken
    exact .pure rfl

theorem agree_withLock {α : Type} {P : α → Prop} {target : LockTarget} {busy : LockBusy}
    {x : ExceptT CommandError (StateM σ) α} {y : ExceptT CommandError (StateM τ) α}
    (good : target.Good Good) (agree : AgreeT (R (some target)) P x y) :
    AgreeT (R none) P (service.withLock target busy x) ((service.withStore store').withLock target busy y) := by
  refine Agree.bind (alike.agree_acquire good _ _) fun r taken => ?_
  cases taken
  refine Agree.bind agree fun r passed => ?_
  exact Agree.bind (alike.unlock good) fun _ _ => .pure passed

theorem agree_updateRegistry {α : Type} {P : α → Prop} {f : Registry → Except RegistryError (α × Registry)}
    {c : Registry.Call} (carries : ∀ r, (f r).map (·.2) = r.outcome c) (emails : ∀ e ∈ c.emails, e.Canonical)
    (keys : ∀ k ∈ c.keys, Good k) (gives : ∀ r a r', r.Sound Good → f r = .ok (a, r') → P a) :
    AgreeT (R none) P (service.updateRegistry f) ((service.withStore store').updateRegistry f) := by
  refine alike.agree_withLock trivial ?_
  refine .bind (.stored (alike.loadApps _)) fun r sound => ?_
  refine .bind (.lift _) fun (a, r') ok => ?_
  have done : f r = .ok (a, r') := mapError_eq_ok.mp ok
  have step : r.Step c r' := Registry.outcome_eq_ok.mp (by rw [← carries, done]; rfl)
  refine .bind (.stored (alike.saveApps _ (step.sound sound emails keys))) fun _ _ => ?_
  exact .pure (gives r a r' sound done)

theorem agree_changeRegistry {f : Registry → Except RegistryError Registry} {c : Registry.Call}
    (carries : ∀ r, f r = r.outcome c) (emails : ∀ e ∈ c.emails, e.Canonical) (keys : ∀ k ∈ c.keys, Good k) :
    AgreeT (R none) (fun _ => True) (service.changeRegistry f) ((service.withStore store').changeRegistry f) := by
  refine alike.agree_updateRegistry (c := c) (fun r => ?_) emails keys fun _ _ _ _ _ => trivial
  rw [← carries]
  cases f r <;> rfl

theorem agree_findApp (app : String) :
    AgreeT (R none) (App.Sound Good) (service.findApp app) ((service.withStore store').findApp app) := by
  refine .bind (.stored (alike.loadApps _)) fun r sound => ?_
  refine Agree.pure fun found ok => ?_
  exact sound found (Registry.mem_of_app (mapError_eq_ok.mp ok))

theorem agree_findDeployment (app deployment : String) :
    AgreeT (R none) (fun d => Good d.key) (service.findDeployment app deployment)
      ((service.withStore store').findDeployment app deployment) :=
  .bind (alike.agree_findApp app) fun _ sound => .deployment sound deployment

theorem agree_summaries {ds : List Deployment} (good : ∀ d ∈ ds, Good d.key) :
    AgreeT (R none) (fun _ => True) (service.summaries ds) ((service.withStore store').summaries ds) := by
  induction ds with
  | nil => exact .pure trivial
  | cons d rest ih =>
    obtain ⟨first, good⟩ := List.forall_mem_cons.mp good
    refine .bind (.stored (alike.loadHistory _ first)) fun _ _ => ?_
    exact .bind (ih good) fun _ _ => .pure trivial

theorem agree_updateHistory {α : Type} {d : Deployment} {f : History → Except ReleaseError (α × History)}
    {c : History.Call} (good : Good d.key) (carries : ∀ h, (f h).map (·.2) = h.outcome c) (brings : c.Brings) :
    AgreeT (R none) (fun _ => True) (service.updateHistory d f) ((service.withStore store').updateHistory d f) := by
  refine alike.agree_withLock good ?_
  refine .bind (.stored (alike.loadHistory _ good)) fun before storable => ?_
  refine .bind (.lift _) fun (a, after) ok => ?_
  have done : f before = .ok (a, after) := mapError_eq_ok.mp ok
  have step : before.Step c after := History.outcome_eq_ok.mp (by rw [← carries, done]; rfl)
  dsimp only
  split
  case isTrue =>
    refine .bind (.stored (alike.saveHistory _ good (step.storable storable brings))) fun _ _ => ?_
    exact .pure trivial
  case isFalse => exact .pure trivial

theorem agree_dropHistory {d : Deployment} (good : Good d.key) :
    Agree (R none) (R none) (fun _ => True) (service.dropHistory d) ((service.withStore store').dropHistory d) := by
  have lockable : (LockTarget.history d.key).Good Good := good
  refine Agree.bind (alike.agree_acquire lockable _ _) fun r taken => ?_
  cases taken
  refine Agree.bind (alike.deleteHistory _ good) fun deleted _ => ?_
  refine Agree.bind (alike.unlock lockable) fun _ _ => ?_
  cases deleted <;> exact .pure trivial

theorem agree_dropHistories {ds : List Deployment} (good : ∀ d ∈ ds, Good d.key) :
    Agree (R none) (R none) (fun _ => True) (service.dropHistories ds)
      ((service.withStore store').dropHistories ds) := by
  induction ds with
  | nil => exact .pure trivial
  | cons d rest ih =>
    obtain ⟨first, good⟩ := List.forall_mem_cons.mp good
    refine .bind (alike.agree_dropHistory first) fun _ _ => ?_
    exact .bind (ih good) fun _ _ => .pure trivial

theorem agree_removed (request : Request) :
    AgreeT (R none) (fun ds => ∀ d ∈ ds, Good d.key) (service.removed request)
      ((service.withStore store').removed request) := by
  cases request
  case removeApp name =>
    refine .bind (alike.agree_updateRegistry (P := App.Sound Good) (c := .removeApp service.account name)
      (fun _ => rfl) nofun nofun fun r app r' sound ok => ?_) fun app sound => .pure sound.keys
    exact sound app (Registry.mem_of_app (Registry.removeApp_eq_ok.mp ok).1.1)
  case removeDeployment app name =>
    refine .bind (alike.agree_updateRegistry (P := fun d => Good d.key)
      (c := .removeDeployment service.account app name) (fun _ => rfl) nofun nofun
      fun r d r' sound ok => ?_) fun d good => .pure (List.forall_mem_singleton.mpr good)
    obtain ⟨found, ⟨at_, _⟩, target, _⟩ := Registry.removeDeployment_eq_ok.mp ok
    have mem := List.mem_of_find?_eq_some (Registry.deployment_eq_ok.mp target)
    exact (sound found (Registry.mem_of_app at_)).keys d mem
  all_goals exact .pure nofun

section Reply

variable {o : Occasion} {request : Request} (account : service.account.Canonical) (time : o.time < wordBound)
  (size : request.size < wordBound) (keys : ∀ k ∈ service.keys o request, Good k)
include account time size keys

theorem agree_reply :
    AgreeT (R none) (fun _ => True) (service.reply o request) ((service.withStore store').reply o request) := by
  have found {β : Type} (app deployment) {f : Deployment → ExceptT CommandError (StateM σ) β}
      {g : Deployment → ExceptT CommandError (StateM τ) β}
      (next : ∀ d, Good d.key → AgreeT (R none) (fun _ => True) (f d) (g d)) :
      AgreeT (R none) (fun _ => True) (service.findDeployment app deployment >>= f)
        ((service.withStore store').findDeployment app deployment >>= g) :=
    .bind (alike.agree_findDeployment app deployment) next
  have mailed {text : String} {e : Email} (read : Service.mailed text = .ok e) : e.Canonical :=
    Email.canonical_of_ofText (mapError_eq_ok.mp read)
  have one {e : Email} (canonical : e.Canonical) : ∀ x ∈ [e], x.Canonical :=
    List.forall_mem_singleton.mpr canonical
  cases request
  case addApp name =>
    refine .bind (.lift _) fun name _ => ?_
    exact .bind (alike.agree_updateRegistry (P := fun _ => True)
      (c := .addApp service.account name service.deployments o.keys) (fun _ => rfl) (one account) keys
      fun _ _ _ _ _ => trivial) fun _ _ => .pure trivial
  case listApps => exact .bind (.stored (alike.loadApps _)) fun _ _ => .pure trivial
  case renameApp old _ =>
    refine .bind (.lift _) fun new _ => ?_
    exact alike.agree_changeRegistry (c := .renameApp service.account old new) (fun _ => rfl) nofun nofun
  case transferApp name _ =>
    refine .bind (.lift _) fun email read => ?_
    exact alike.agree_changeRegistry (c := .transferApp service.account name email) (fun _ => rfl)
      (List.forall_mem_cons.mpr ⟨account, one (mailed read)⟩) nofun
  case addCollaborator app _ =>
    refine .bind (.lift _) fun email read => ?_
    exact alike.agree_changeRegistry (c := .addCollaborator service.account app email) (fun _ => rfl)
      (one (mailed read)) nofun
  case listCollaborators => exact .bind (alike.agree_findApp _) fun _ _ => .pure trivial
  case removeCollaborator app _ =>
    refine .bind (.lift _) fun email _ => ?_
    exact alike.agree_changeRegistry (c := .removeCollaborator service.account app email) (fun _ => rfl)
      nofun nofun
  case addDeployment app _ =>
    refine .bind (.lift _) fun name _ => ?_
    exact .bind (alike.agree_updateRegistry (P := fun _ => True)
      (c := .addDeployment service.account app name (o.keys 0)) (fun _ => rfl) nofun keys
      fun _ _ _ _ _ => trivial) fun _ _ => .pure trivial
  case listDeployments =>
    refine .bind (alike.agree_findApp _) fun _ sound => ?_
    exact .bind (alike.agree_summaries sound.keys) fun _ _ => .pure trivial
  case renameDeployment app old _ =>
    refine .bind (.lift _) fun new _ => ?_
    exact alike.agree_changeRegistry (c := .renameDeployment service.account app old new) (fun _ => rfl)
      nofun nofun
  case history =>
    exact found _ _ fun _ good => .bind (.stored (alike.loadHistory _ good)) fun _ _ => .pure trivial
  case clearHistory =>
    exact found _ _ fun _ good => alike.agree_updateHistory (c := .clear) good (fun _ => rfl) trivial
  case release content _ options =>
    refine found _ _ fun d good => .bind (.lift _) fun version _ => .bind (.lift _) fun bundle ok => ?_
    obtain rfl : content = .ok bundle := mapError_eq_ok.mp ok
    exact .bind (alike.agree_updateHistory
      (c := .release bundle.hash bundle.size o.time version options) good (fun _ => rfl) ⟨size, time⟩)
      fun _ _ => .pure trivial
  case patch options =>
    refine found _ _ fun d good => ?_
    exact .bind (alike.agree_updateHistory (c := .patch d.name options) good (fun _ => rfl) trivial)
      fun _ _ => .pure trivial
  case promote options =>
    refine .bind (alike.agree_findApp _) fun _ sound => ?_
    refine .bind (.deployment sound _) fun source good => ?_
    refine .bind (.deployment sound _) fun target good' => ?_
    refine .bind (.stored (alike.loadHistory _ good)) fun h storable => ?_
    exact .bind (alike.agree_updateHistory (c := .promote source.name h options o.time) good'
      (fun _ => rfl) ⟨storable, time⟩) fun _ _ => .pure trivial
  case rollback target =>
    refine found _ _ fun d good => ?_
    exact .bind (alike.agree_updateHistory (c := .rollback d.name target) good (fun _ => rfl) trivial)
      fun _ _ => .pure trivial
  case removeApp => exact .pure trivial
  case removeDeployment => exact .pure trivial

theorem agree_handle : Agree (R none) (R none) (fun _ => True) (service.handle o request)
    ((service.withStore store').handle o request) := by
  refine Agree.bind (alike.agree_removed request) fun r good => ?_
  cases r with
  | error => exact .pure trivial
  | ok ds =>
    refine Agree.bind (alike.agree_dropHistories (good ds rfl)) fun _ _ => ?_
    exact Agree.bind (alike.agree_reply account time size keys) fun _ _ => .pure trivial

end Reply

end Store.Alike

end AirRelease
