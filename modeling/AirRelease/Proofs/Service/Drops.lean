import AirRelease.Proofs.Service.Failure
import AirRelease.Proofs.Success

namespace AirRelease

variable {σ : Type}

-- The request removes the deployments from the registry.
inductive Registry.Removes (r : Registry) (account : Email) :
    Request → List Deployment → Registry → Prop
  | app (removed : r.removeApp account name = .ok (found, r')) :
    r.Removes account (.removeApp name) found.deployments r'
  | deployment (removed : r.removeDeployment account of name = .ok (d, r')) :
    r.Removes account (.removeDeployment of name) [d] r'

-- A request to remove an app or a deployment.
def Request.Removal : Request → Prop
  | .removeApp _ | .removeDeployment _ _ => True
  | _ => False

-- The deployments with what has kept their histories from being deleted.
abbrev Drop :=
  Deployment × Option LockError

namespace Service

def warnings (drops : List Drop) : List Warning :=
  drops.filterMap fun (d, fate) => fate.map (.orphanedHistory d.name)

-- What becomes of one history: its lock is not free, or it cannot be deleted, or it is deleted.
inductive DropsHistory (service : Service (StateM σ)) (s : σ) (d : Deployment) : Option LockError → σ → Prop
  | locked (acquired : service.store.acquire service.lockTimeout (.history d.key)
      (.deployment d.name service.lockTimeout) s = (.error e, s')) : service.DropsHistory s d (some e) s'
  | undeleted (acquired : service.store.acquire service.lockTimeout (.history d.key)
      (.deployment d.name service.lockTimeout) s = (.ok (), s₁))
      (failed : service.store.deleteHistory d.key s₁ = (.error e, s₂)) :
    service.DropsHistory s d (some (.store e)) (service.store.unlock (.history d.key) s₂).2
  | deleted (acquired : service.store.acquire service.lockTimeout (.history d.key)
      (.deployment d.name service.lockTimeout) s = (.ok (), s₁))
      (deleted : service.store.deleteHistory d.key s₁ = (.ok (), s₂)) :
    service.DropsHistory s d none (service.store.unlock (.history d.key) s₂).2

inductive Drops (service : Service (StateM σ)) : σ → List Drop → σ → Prop
  | nil : service.Drops s [] s
  | cons (first : service.DropsHistory s d fate s₁) (rest : service.Drops s₁ drops s') :
    service.Drops s ((d, fate) :: drops) s'

variable {service : Service (StateM σ)}

theorem drops_of_dropHistory (d : Deployment) (s : σ) : ∃ fate s', service.DropsHistory s d fate s' ∧
    service.dropHistory d s = (warnings [(d, fate)], s') := by
  simp only [dropHistory, bind_apply]
  rcases acquired : service.store.acquire service.lockTimeout (.history d.key)
    (.deployment d.name service.lockTimeout) s with ⟨e | _, s₁⟩
  case error => exact ⟨some e, s₁, .locked acquired, rfl⟩
  case ok =>
    simp only [bind_apply]
    rcases deleted : service.store.deleteHistory d.key s₁ with ⟨e | _, s₂⟩
    case error => exact ⟨_, _, .undeleted acquired deleted, rfl⟩
    case ok => exact ⟨_, _, .deleted acquired deleted, rfl⟩

theorem drops_of_dropHistories (ds : List Deployment) (s : σ) : ∃ drops s', drops.map (·.1) = ds ∧
    service.Drops s drops s' ∧ service.dropHistories ds s = (warnings drops, s') := by
  induction ds generalizing s with
  | nil => exact ⟨[], s, rfl, .nil, rfl⟩
  | cons d rest ih =>
    have ⟨fate, s₁, first, ran⟩ := service.drops_of_dropHistory d s
    have ⟨drops, s', listed, others, ran'⟩ := ih s₁
    refine ⟨(d, fate) :: drops, s', by rw [List.map_cons, listed], .cons first others, ?_⟩
    simp only [dropHistories, bind_apply, ran, ran', pure_apply]
    rw [warnings, warnings, warnings, ← List.filterMap_append]
    rfl

-- Every removed deployment is accounted for: either its history is gone or there is a warning about it.
-- A key that several deployments have counts as dropped if one of them was.
structure Accounts (service : Service (StateM σ)) (o : Occasion) (request : Request)
    (Same : AccessKey → σ → σ → Prop) (s s₁ : σ) (ds : List Deployment) (drops : List Drop) (s' : σ) :
    Prop where
  found : ∃ r r', (service.store.loadApps s).1 = .ok r ∧ r.Removes service.account request ds r'
  listed : drops.map (·.1) = ds
  dropped : service.Drops s₁ drops s'
  handled : service.handle o request s = (⟨.ok .done, warnings drops⟩, s')
  gone : ∀ d : Deployment, (d, none) ∈ drops → (service.store.loadHistory d.key s').1 = .ok .empty
  kept : ∀ key, (∀ d : Deployment, (d, none) ∈ drops → d.key ≠ key) → Same key s s'

end Service

namespace Store

-- The histories and the registry are as they were, and the store is still valid.
structure Spares (store : Store (StateM σ)) (Valid : σ → Prop) (Same : AccessKey → σ → σ → Prop)
    (s s' : σ) : Prop where
  valid : Valid s'
  same : ∀ key, Same key s s'
  apps : (store.loadApps s').1 = (store.loadApps s).1

-- What a store has to keep to so that one history does not depend on what happens to others.
structure Separates (store : Store (StateM σ)) (Valid : σ → Prop) (Same : AccessKey → σ → σ → Prop) :
    Prop where
  refl : ∀ key s, Same key s s
  trans : ∀ {key s s' s''}, Same key s s' → Same key s' s'' → Same key s s''
  loadHistory : ∀ {key s s'}, Same key s s' → (store.loadHistory key s').1 = (store.loadHistory key s).1
  loadApps : ∀ s, (store.loadApps s).2 = s
  tryLock : ∀ target {s}, Valid s → store.Spares Valid Same s (store.tryLock target s).2
  pause : ∀ d {s}, Valid s → store.Spares Valid Same s (store.pause d s).2
  unlock : ∀ target {s}, Valid s → store.Spares Valid Same s (store.unlock target s).2
  saveApps : ∀ {apps s s'}, Valid s → store.saveApps apps s = (.ok (), s') →
    Valid s' ∧ ∀ key, Same key s s'
  kept : ∀ {key e s s'}, Valid s → store.deleteHistory key s = (.error e, s') → s' = s
  deleted : ∀ {key s s'}, Valid s → store.deleteHistory key s = (.ok (), s') →
    Valid s' ∧ (store.loadHistory key s').1 = .ok .empty ∧ ∀ other, other ≠ key → Same other s s'

namespace Separates

variable {store : Store (StateM σ)} {Valid : σ → Prop} {Same : AccessKey → σ → σ → Prop} {s s₁ s' : σ}
  (separates : store.Separates Valid Same)
include separates

theorem spares_trans (first : store.Spares Valid Same s s₁) (second : store.Spares Valid Same s₁ s') :
    store.Spares Valid Same s s' where
  valid := second.valid
  same key := separates.trans (first.same key) (second.same key)
  apps := second.apps.trans first.apps

theorem spares_poll (target : LockTarget) (busy : LockBusy) (last : Duration) (n : Nat) (valid : Valid s) :
    store.Spares Valid Same s (store.poll target busy last n s).2 := by
  induction n generalizing s with
  | zero =>
    have tried := separates.tryLock target valid
    simp only [poll, bind_apply]
    rcases ran : store.tryLock target s with ⟨e | _ | _, s₁⟩
    all_goals rw [ran] at tried
    case error | ok.true => exact tried
    case ok.false =>
      by_cases done : last.nanoseconds = 0
      case pos =>
        simp only [if_pos done]
        exact tried
      case neg =>
        have waited := separates.spares_trans tried (separates.pause last tried.valid)
        have again := separates.spares_trans waited (separates.tryLock target waited.valid)
        simp only [if_neg done, bind_apply]
        rcases ran : store.tryLock target (store.pause last s₁).2 with ⟨e | _ | _, s₂⟩
        all_goals
          rw [ran] at again
          exact again
  | succ n ih =>
    have tried := separates.tryLock target valid
    simp only [poll, bind_apply]
    rcases ran : store.tryLock target s with ⟨e | _ | _, s₁⟩
    all_goals rw [ran] at tried
    case error | ok.true => exact tried
    case ok.false =>
      have waited := separates.spares_trans tried (separates.pause pollInterval tried.valid)
      exact separates.spares_trans waited (ih waited.valid)

variable {service : Service (StateM σ)} (on : service.store = store)
include on

theorem spares_acquire {target : LockTarget} {busy : LockBusy} {r : Except LockError Unit} (valid : Valid s)
    (acquired : service.store.acquire service.lockTimeout target busy s = (r, s₁)) :
    store.Spares Valid Same s s₁ := by
  subst on
  have spares : service.store.Spares Valid Same s
      (service.store.acquire service.lockTimeout target busy s).2 := separates.spares_poll target busy _ _ valid
  rwa [acquired] at spares

-- The locks come and go, and nothing but the registry changes.
theorem updateRegistry_eq_ok {α : Type} {f : Registry → Except RegistryError (α × Registry)} {a : α}
    (valid : Valid s) (updated : (service.updateRegistry f).run s = (.ok a, s₁)) :
    (∃ r r', (store.loadApps s).1 = .ok r ∧ f r = .ok (a, r')) ∧ Valid s₁ ∧ ∀ key, Same key s s₁ := by
  rw [Service.updateRegistry, withLock_apply] at updated
  rcases acquired : service.store.acquire service.lockTimeout .registry (.registry service.lockTimeout) s with
    ⟨e | _, s₂⟩
  all_goals rw [acquired] at updated
  case error => exact nomatch (Prod.mk.inj updated).1
  have locked := separates.spares_acquire on valid acquired
  subst on
  have read := separates.loadApps s₂
  rcases loaded : service.store.loadApps s₂ with ⟨e | r, s₃⟩
  all_goals
    rw [loaded] at read
    simp only [run_bind_apply, stored_apply, loaded, mapError_error, mapError_ok] at updated
  case error => exact nomatch (Prod.mk.inj updated).1
  rcases changed : f r with e | ⟨b, r'⟩
  all_goals simp only [changed, lift_apply, mapError_error, mapError_ok] at updated
  case error => exact nomatch (Prod.mk.inj updated).1
  rcases saved : service.store.saveApps r' s₃ with ⟨e | _, s₄⟩
  all_goals simp only [saved, mapError_error, mapError_ok] at updated
  case error => exact nomatch (Prod.mk.inj updated).1
  case ok =>
    obtain ⟨same, rfl⟩ := Prod.mk.inj updated
    cases same
    cases read
    have ⟨valid, stays⟩ := separates.saveApps locked.valid saved
    have freed := separates.unlock .registry valid
    have apps : (service.store.loadApps s).1 = .ok r := by rw [← locked.apps, loaded]
    exact ⟨⟨r, r', apps, changed⟩, freed.valid, fun key =>
      separates.trans (locked.same key) (separates.trans (stays key) (freed.same key))⟩

theorem removed_eq_ok {request : Request} {ds : List Deployment} (removal : request.Removal) (valid : Valid s)
    (removed : (service.removed request).run s = (.ok ds, s₁)) :
    (∃ r r', (store.loadApps s).1 = .ok r ∧ r.Removes service.account request ds r') ∧
      Valid s₁ ∧ ∀ key, Same key s s₁ := by
  cases request
  case removeApp name =>
    rw [Service.removed, run_bind_apply] at removed
    rcases updated : (service.updateRegistry (·.removeApp service.account name)).run s with ⟨e | app, s₂⟩
    all_goals simp only [updated] at removed
    case error => exact nomatch (Prod.mk.inj removed).1
    case ok =>
      have ⟨⟨r, r', loaded, found⟩, rest⟩ := separates.updateRegistry_eq_ok on valid updated
      rw [run_pure_apply] at removed
      cases removed
      exact ⟨⟨r, r', loaded, .app found⟩, rest⟩
  case removeDeployment app name =>
    rw [Service.removed, run_bind_apply] at removed
    rcases updated : (service.updateRegistry (·.removeDeployment service.account app name)).run s with
      ⟨e | d, s₂⟩
    all_goals simp only [updated] at removed
    case error => exact nomatch (Prod.mk.inj removed).1
    case ok =>
      have ⟨⟨r, r', loaded, found⟩, rest⟩ := separates.updateRegistry_eq_ok on valid updated
      rw [run_pure_apply] at removed
      cases removed
      exact ⟨⟨r, r', loaded, .deployment found⟩, rest⟩
  all_goals exact nomatch removal

section Drops

variable {d : Deployment} {fate : Option LockError} {drops : List Drop} {key : AccessKey}

theorem spec_of_dropsHistory (dropped : service.DropsHistory s d fate s') (valid : Valid s) :
    Valid s' ∧ (fate = none → (store.loadHistory d.key s').1 = .ok .empty) ∧
      ∀ key, (fate = none → d.key ≠ key) → Same key s s' := by
  cases dropped with
  | locked acquired =>
    have waited := separates.spares_acquire on valid acquired
    exact ⟨waited.valid, nofun, fun key _ => waited.same key⟩
  | undeleted acquired failed =>
    have locked := separates.spares_acquire on valid acquired
    subst on
    cases separates.kept locked.valid failed
    have freed := separates.spares_trans locked (separates.unlock (.history d.key) locked.valid)
    exact ⟨freed.valid, nofun, fun key _ => freed.same key⟩
  | deleted acquired deleted =>
    have locked := separates.spares_acquire on valid acquired
    subst on
    have ⟨valid₂, empty, elsewhere⟩ := separates.deleted locked.valid deleted
    have freed := separates.unlock (.history d.key) valid₂
    refine ⟨freed.valid, fun _ => (separates.loadHistory (freed.same _)).trans empty, fun key other => ?_⟩
    have same := elsewhere key (other rfl).symm
    exact separates.trans (separates.trans (locked.same key) same) (freed.same key)

theorem kept_of_drops (dropped : service.Drops s drops s') (valid : Valid s)
    (others : ∀ d : Deployment, (d, none) ∈ drops → d.key ≠ key) : Same key s s' := by
  induction dropped with
  | nil => exact separates.refl key _
  | cons first rest ih =>
    have ⟨valid₁, _, same⟩ := separates.spec_of_dropsHistory on first valid
    have same := same key fun dropped => others _ (dropped ▸ List.mem_cons_self)
    exact separates.trans same (ih valid₁ fun d mem => others d (List.mem_cons_of_mem _ mem))

-- A history that is gone does not come back, since no step does anything else to a history than drop it.
theorem empty_of_drops (dropped : service.Drops s drops s') (valid : Valid s)
    (empty : (store.loadHistory key s).1 = .ok .empty) : (store.loadHistory key s').1 = .ok .empty := by
  induction dropped with
  | nil => exact empty
  | @cons _ d fate _ _ _ first rest ih =>
    have ⟨valid₁, gone, same⟩ := separates.spec_of_dropsHistory on first valid
    refine ih valid₁ ?_
    by_cases again : fate = none ∧ d.key = key
    case pos => exact again.2 ▸ gone again.1
    case neg =>
      have same := same key fun dropped eq => again ⟨dropped, eq⟩
      rw [separates.loadHistory same, empty]

theorem gone_of_drops (dropped : service.Drops s drops s') (valid : Valid s) (mem : (d, none) ∈ drops) :
    (store.loadHistory d.key s').1 = .ok .empty := by
  induction dropped with
  | nil => exact nomatch mem
  | cons first rest ih =>
    have ⟨valid₁, gone, _⟩ := separates.spec_of_dropsHistory on first valid
    rcases List.mem_cons.mp mem with eq | mem
    · cases eq
      exact separates.empty_of_drops on rest valid₁ (gone rfl)
    · exact ih valid₁ mem

end Drops

theorem accounts_of_removed (o : Occasion) {request : Request} {ds : List Deployment}
    (removal : request.Removal) (valid : Valid s)
    (removed : (service.removed request).run s = (.ok ds, s₁)) :
    ∃ drops s', service.Accounts o request Same s s₁ ds drops s' := by
  have ⟨found, valid₁, same⟩ := separates.removed_eq_ok on removal valid removed
  have ⟨drops, s', listed, dropped, ran⟩ := service.drops_of_dropHistories ds s₁
  subst on
  refine ⟨drops, s', found, listed, dropped, ?_, fun d mem => ?_, fun key others => ?_⟩
  case refine_1 =>
    have done : service.reply o request = pure .done := by
      cases request
      case removeApp => rfl
      case removeDeployment => rfl
      all_goals exact nomatch removal
    simp only [Service.handle, bind_apply, removed, ran, done, run_pure_apply, pure_apply]
  case refine_2 => exact separates.gone_of_drops rfl dropped valid₁ mem
  case refine_3 => exact separates.trans (same key) (separates.kept_of_drops rfl dropped valid₁ others)

end Separates

end Store

end AirRelease
