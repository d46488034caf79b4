import AirRelease.Proofs.State
import AirRelease.Service

namespace AirRelease

variable {σ : Type}

-- What a store has to keep to when it fails. `Same` says that everything is as it was, `Holding` that
-- this is so but for a lock that has been taken.
structure Store.Restores (store : Store (StateM σ)) (Same : σ → σ → Prop)
    (Holding : LockTarget → σ → σ → Prop) : Prop where
  refl : ∀ s, Same s s
  trans : ∀ {s s' s''}, Same s s' → Same s' s'' → Same s s''
  loadApps : ∀ s, (store.loadApps s).2 = s
  loadHistory : ∀ key s, (store.loadHistory key s).2 = s
  tryLock : ∀ {target s r s'}, store.tryLock target s = (r, s') →
    (r = .ok true → Holding target s s') ∧ (r ≠ .ok true → Same s s')
  pause : ∀ d s, Same s (store.pause d s).2
  unlock : ∀ {target s s'}, Holding target s s' → Same s (store.unlock target s').2
  hold : ∀ {target s s' s''}, Same s s' → Holding target s' s'' → Holding target s s''
  saveApps : ∀ {apps s s' r s''}, Holding .registry s s' → store.saveApps apps s' = (r, s'') →
    r ≠ .ok () → Holding .registry s s''
  saveHistory : ∀ {key h s s' r s''}, Holding (.history key) s s' →
    store.saveHistory key h s' = (r, s'') → r ≠ .ok () → Holding (.history key) s s''

-- An action that leaves everything as it was if it fails.
def Careful (Same : σ → σ → Prop) {ε α : Type} (x : ExceptT ε (StateM σ) α) : Prop :=
  ∀ s e, (x.run s).1 = .error e → Same s (x.run s).2

section Bind

variable {ε α β : Type} {Same : σ → σ → Prop} {x : ExceptT ε (StateM σ) α}
  {f : α → ExceptT ε (StateM σ) β}

theorem Reads.stored {x : StateM σ (Except StoreError α)} (reads : ∀ s, (x s).2 = s) :
    Reads (Service.stored x) :=
  reads

theorem Careful.stored {x : StateM σ (Except StoreError α)}
    (careful : ∀ s, (∀ a, (x s).1 ≠ .ok a) → Same s (x s).2) : Careful Same (Service.stored x) := by
  intro s e failed
  refine careful s fun a done => ?_
  have passed : ((Service.stored x).run s).1 = .ok a := by
    simp only [Service.stored, ExceptT.run_mk, bind_apply, pure_apply, done]
    rfl
  exact nomatch failed.symm.trans passed

theorem Careful.of_reads (refl : ∀ s, Same s s) (reads : Reads x) : Careful Same x := by
  intro s e _
  rw [reads]
  exact refl s

theorem Careful.bind_reads (refl : ∀ s, Same s s) (reads : Reads x) (next : ∀ a, Careful Same (f a)) :
    Careful Same (x >>= f) := by
  intro s e failed
  rw [run_bind_apply] at failed ⊢
  rcases ran : x.run s with ⟨e' | a, s'⟩
  all_goals
    have same : s' = s := by simpa [ran] using reads s
    subst same
    rw [ran] at failed
  · exact refl s'
  · exact next a s' e failed

-- What comes after the action cannot fail any more.
theorem Careful.bind_pure (careful : Careful Same x) {f : α → ExceptT ε (StateM σ) β}
    (certain : ∀ a, ∃ b, f a = Pure.pure b) : Careful Same (x >>= f) := by
  intro s e failed
  rw [run_bind_apply] at failed ⊢
  rcases ran : x.run s with ⟨e' | a, s'⟩
  all_goals rw [ran] at failed
  · have same := careful s e' (by rw [ran])
    rwa [ran] at same
  · obtain ⟨b, eq⟩ := certain a
    simp only [eq] at failed
    cases failed

end Bind

section Apply

variable {α : Type}

theorem stored_apply (x : StateM σ (Except StoreError α)) (s : σ) :
    (Service.stored x).run s = ((x s).1.mapError .store, (x s).2) :=
  rfl

theorem lift_apply {ε : Type} (x : Except ε α) (s : σ) : (liftM x : ExceptT ε (StateM σ) α).run s = (x, s) :=
  rfl

theorem run_pure_apply {ε : Type} (a : α) (s : σ) : (pure a : ExceptT ε (StateM σ) α).run s = (.ok a, s) :=
  rfl

end Apply

theorem withLock_apply {α : Type} (service : Service (StateM σ)) (target : LockTarget) (busy : LockBusy)
    (action : ExceptT CommandError (StateM σ) α) (s : σ) :
    (service.withLock target busy action).run s =
      match service.store.acquire service.lockTimeout target busy s with
      | (.error e, s) => (.error (.lock e), s)
      | (.ok (), s) => ((action.run s).1, (service.store.unlock target (action.run s).2).2) := by
  simp only [Service.withLock, ExceptT.run_mk, bind_apply]
  rcases service.store.acquire service.lockTimeout target busy s with ⟨_ | _, _⟩ <;> rfl

theorem removes_nothing_or_done (service : Service (StateM σ)) (o : Occasion) (request : Request) :
    service.removed request = pure [] ∨ service.reply o request = pure .done := by
  cases request
  case removeApp => exact .inr rfl
  case removeDeployment => exact .inr rfl
  all_goals exact .inl rfl

namespace Store.Restores

variable {store : Store (StateM σ)} {Same : σ → σ → Prop} {Holding : LockTarget → σ → σ → Prop}
  (restores : store.Restores Same Holding)
include restores

section Lock

variable {target : LockTarget} {busy : LockBusy} {last : Duration}

-- Whether a lock has been taken or has been left as it was.
def Settles {ε : Type} (Same : σ → σ → Prop) (Holding : LockTarget → σ → σ → Prop)
    (target : LockTarget) (s : σ) : Except ε Unit × σ → Prop
  | (.ok (), s') => Holding target s s'
  | (.error _, s') => Same s s'

theorem settles_of_same {ε : Type} {s s' : σ} {result : Except ε Unit × σ} (same : Same s s')
    (settles : Settles Same Holding target s' result) : Settles Same Holding target s result := by
  rcases result with ⟨_ | _, s''⟩
  · exact restores.trans same settles
  · exact restores.hold same settles

theorem settles_poll (n : Nat) (s : σ) :
    Settles Same Holding target s (store.poll target busy last n s) := by
  induction n generalizing s with
  | zero =>
    simp only [poll, bind_apply]
    rcases tried : store.tryLock target s with ⟨e | _ | _, s₁⟩
    · exact (restores.tryLock tried).2 nofun
    · have waited : Same s s₁ := (restores.tryLock tried).2 nofun
      by_cases done : last.nanoseconds = 0
      case pos =>
        simp only [if_pos done]
        exact waited
      case neg =>
        have waited := restores.trans waited (restores.pause last s₁)
        simp only [if_neg done, bind_apply]
        rcases tried : store.tryLock target (store.pause last s₁).2 with ⟨e | _ | _, s₂⟩
        · exact restores.trans waited ((restores.tryLock tried).2 nofun)
        · exact restores.trans waited ((restores.tryLock tried).2 nofun)
        · exact restores.hold waited ((restores.tryLock tried).1 rfl)
    · exact (restores.tryLock tried).1 rfl
  | succ n ih =>
    simp only [poll, bind_apply]
    rcases tried : store.tryLock target s with ⟨e | _ | _, s₁⟩
    · exact (restores.tryLock tried).2 nofun
    · have waited := restores.trans ((restores.tryLock tried).2 nofun) (restores.pause pollInterval s₁)
      exact restores.settles_of_same waited (ih _)
    · exact (restores.tryLock tried).1 rfl

end Lock

section Service

variable {service : Service (StateM σ)} (on : service.store = store) {α : Type}
include on

-- An action under a lock which, if it fails, leaves the lock as all there is to undo.
theorem careful_withLock {target : LockTarget} {busy : LockBusy}
    {action : ExceptT CommandError (StateM σ) α}
    (careful : ∀ s, Careful (fun s' s'' => Holding target s s' → Holding target s s'') action) :
    Careful Same (service.withLock target busy action) := by
  intro s e failed
  have settles : Settles Same Holding target s
      (service.store.acquire service.lockTimeout target busy s) := by
    rw [on]
    exact restores.settles_poll _ s
  rw [withLock_apply] at failed ⊢
  rcases acquired : service.store.acquire service.lockTimeout target busy s with ⟨e' | _, s₁⟩
  all_goals rw [acquired] at settles failed
  · exact settles
  · simp only [on]
    exact restores.unlock (careful s s₁ e failed settles)

theorem reads_loadApps : Reads (Service.stored service.store.loadApps) :=
  .stored (by simpa only [on] using restores.loadApps)

theorem reads_loadHistory (key : AccessKey) : Reads (Service.stored (service.store.loadHistory key)) :=
  .stored (by simpa only [on] using restores.loadHistory key)

theorem reads_findApp (app : String) : Reads (service.findApp app) :=
  .bind (restores.reads_loadApps on) fun _ => .lift _

theorem reads_findDeployment (app deployment : String) :
    Reads (service.findDeployment app deployment) :=
  .bind (restores.reads_findApp on app) fun _ => .lift _

theorem reads_summaries (ds : List Deployment) : Reads (service.summaries ds) := by
  induction ds with
  | nil => exact .pure []
  | cons d rest ih => exact .bind (restores.reads_loadHistory on d.key) fun _ => .bind ih fun _ => .pure _

theorem careful_updateRegistry (f : Registry → Except RegistryError (α × Registry)) :
    Careful Same (service.updateRegistry f) := by
  refine restores.careful_withLock on fun s => ?_
  refine .bind_reads (fun _ => id) (restores.reads_loadApps on) fun r => ?_
  refine .bind_reads (fun _ => id) (.lift _) fun (a, r) => ?_
  refine .bind_pure (.stored fun s' failed holding => ?_) fun _ => ⟨a, rfl⟩
  simp only [on] at failed ⊢
  exact restores.saveApps holding rfl (failed ())

theorem careful_updateHistory (d : Deployment) (f : History → Except ReleaseError (α × History)) :
    Careful Same (service.updateHistory d f) := by
  refine restores.careful_withLock on fun s => ?_
  refine .bind_reads (fun _ => id) (restores.reads_loadHistory on d.key) fun before => ?_
  refine .bind_reads (fun _ => id) (.lift _) fun (a, after) => ?_
  dsimp only
  split
  case isFalse => exact .of_reads (fun _ => id) (.pure a)
  case isTrue =>
    refine .bind_pure (.stored fun s' failed holding => ?_) fun _ => ⟨a, rfl⟩
    simp only [on] at failed ⊢
    exact restores.saveHistory holding rfl (failed ())

theorem careful_changeRegistry (f : Registry → Except RegistryError Registry) :
    Careful Same (service.changeRegistry f) :=
  restores.careful_updateRegistry on _

theorem careful_removed (request : Request) : Careful Same (service.removed request) := by
  cases request
  case removeApp => exact .bind_pure (restores.careful_updateRegistry on _) fun _ => ⟨_, rfl⟩
  case removeDeployment => exact .bind_pure (restores.careful_updateRegistry on _) fun _ => ⟨_, rfl⟩
  all_goals exact .of_reads restores.refl (.pure [])

theorem careful_reply (o : Occasion) (request : Request) : Careful Same (service.reply o request) := by
  have found {β : Type} (app deployment) {f : Deployment → ExceptT CommandError (StateM σ) β}
      (next : ∀ d, Careful Same (f d)) : Careful Same (service.findDeployment app deployment >>= f) :=
    .bind_reads restores.refl (restores.reads_findDeployment on app deployment) next
  have given {β γ : Type} (x : Except CommandError β) {f : β → ExceptT CommandError (StateM σ) γ}
      (next : ∀ b, Careful Same (f b)) : Careful Same (liftM x >>= f) :=
    .bind_reads restores.refl (.lift x) next
  cases request
  case addApp =>
    exact given _ fun _ => .bind_pure (restores.careful_updateRegistry on _) fun _ => ⟨_, rfl⟩
  case listApps => exact .of_reads restores.refl (.bind (restores.reads_loadApps on) fun _ => .pure _)
  case renameApp => exact given _ fun _ => restores.careful_changeRegistry on _
  case transferApp => exact given _ fun _ => restores.careful_changeRegistry on _
  case addCollaborator => exact given _ fun _ => restores.careful_changeRegistry on _
  case listCollaborators =>
    exact .of_reads restores.refl (.bind (restores.reads_findApp on _) fun _ => .pure _)
  case removeCollaborator => exact given _ fun _ => restores.careful_changeRegistry on _
  case addDeployment =>
    exact given _ fun _ => .bind_pure (restores.careful_updateRegistry on _) fun _ => ⟨_, rfl⟩
  case listDeployments =>
    refine .of_reads restores.refl (.bind (restores.reads_findApp on _) fun _ => ?_)
    exact .bind (restores.reads_summaries on _) fun _ => .pure _
  case renameDeployment => exact given _ fun _ => restores.careful_changeRegistry on _
  case history =>
    refine .of_reads restores.refl (.bind (restores.reads_findDeployment on _ _) fun d => ?_)
    exact .bind (restores.reads_loadHistory on d.key) fun _ => .pure _
  case clearHistory => exact found _ _ fun d => restores.careful_updateHistory on d _
  case release =>
    refine found _ _ fun d => given _ fun _ => given _ fun _ => ?_
    exact .bind_pure (restores.careful_updateHistory on d _) fun _ => ⟨_, rfl⟩
  case patch =>
    exact found _ _ fun d => .bind_pure (restores.careful_updateHistory on d _) fun _ => ⟨_, rfl⟩
  case promote =>
    refine .bind_reads restores.refl (restores.reads_findApp on _) fun _ => ?_
    refine given _ fun source => given _ fun target => ?_
    refine .bind_reads restores.refl (restores.reads_loadHistory on source.key) fun _ => ?_
    exact .bind_pure (restores.careful_updateHistory on target _) fun _ => ⟨_, rfl⟩
  case rollback =>
    exact found _ _ fun d => .bind_pure (restores.careful_updateHistory on d _) fun _ => ⟨_, rfl⟩
  case removeApp => exact .of_reads restores.refl (.pure _)
  case removeDeployment => exact .of_reads restores.refl (.pure _)

-- The histories of removed deployments are dropped only when the request cannot fail any more.
theorem same_of_handle_eq_error (o : Occasion) (request : Request) {s : σ} {e : CommandError}
    (failed : (service.handle o request s).1.result = .error e) :
    Same s (service.handle o request s).2 := by
  simp only [Service.handle, bind_apply] at failed ⊢
  rcases removes_nothing_or_done service o request with nothing | done
  case inl =>
    simp only [nothing] at failed ⊢
    exact restores.careful_reply on o request s e failed
  case inr =>
    have careful := restores.careful_removed on request s
    rcases removed : (service.removed request).run s with ⟨e' | ds, s₁⟩
    all_goals simp only [removed] at failed careful ⊢
    · exact careful e' rfl
    · simp only [done] at failed
      cases failed

end Service

end Store.Restores

end AirRelease
