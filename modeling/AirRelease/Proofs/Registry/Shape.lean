import AirRelease.Proofs.Registry.Step
import Mathlib.Data.List.Flatten
import Mathlib.Data.List.Nodup
import Mathlib.Data.List.Perm.Subperm

namespace AirRelease

theorem nodup_eraseDups {α : Type} [BEq α] [LawfulBEq α] (as : List α) : as.eraseDups.Nodup := by
  match as with
  | [] => simp
  | a :: rest =>
    rw [List.eraseDups_cons, List.nodup_cons]
    constructor
    case left => simp [List.mem_eraseDups]
    case right => exact nodup_eraseDups _
termination_by as.length
decreasing_by exact Nat.lt_succ_of_le (List.length_filter_le _ _)

section Owner

variable {account x y : Email} {cs : Collaborators}

-- An app that is handed on has one owner again, the new one.
theorem Collaborators.find_transfer (only : ∀ x, cs.find x = some .owner → x = account) :
    ((cs.insert account .collaborator).insert y .owner).find x = some .owner ↔ x = y := by
  rw [find_insert, find_insert]
  by_cases hy : x = y
  case pos => simp [hy]
  case neg =>
    by_cases ha : x = account
    case pos => simp [ha]
    case neg => simpa [hy, ha] using fun h => ha (only x h)

theorem Collaborators.find_erase_owner (old : cs.find x = some .collaborator) :
    (cs.erase x).find y = some .owner ↔ cs.find y = some .owner := by
  by_cases eq : y = x
  case pos => simp [eq, find_erase_self, old]
  case neg => rw [find_erase_of_ne cs eq]

theorem Collaborators.find_insert_collaborator (new : ¬cs.Has x) :
    (cs.insert x .collaborator).find y = some .owner ↔ cs.find y = some .owner := by
  rw [find_insert]
  split
  case isTrue eq =>
    have absent : cs.find y = none := by simpa [Has, eq] using new
    simp [absent]
  case isFalse => rfl

end Owner

-- The new name is either the old one or that of no other deployment.
theorem nodup_names_rename {ds : List Deployment} {d : Deployment} {old : String} {new : Name}
    (nodup : (ds.map (·.name)).Nodup) (found : ds.find? (·.name.text = old) = some d)
    (fresh : new.text ≠ old → new ∉ ds.map (·.name)) :
    ((changeFirst (·.name.text = old) ({ · with name := new }) ds).map (·.name)).Nodup := by
  by_cases same : new.text = old
  case pos =>
    rw [map_changeFirst]
    · exact nodup
    · intro e is
      exact Name.ext (same.trans (of_decide_eq_true is).symm)
  case neg =>
    have ⟨before, after, split, changed, _⟩ := changeFirst_split found ({ · with name := new })
    have fresh := fresh same
    rw [changed]
    rw [split] at nodup fresh
    simp only [List.map_append, List.map_cons, List.nodup_middle, List.nodup_cons] at nodup ⊢
    simp only [List.map_append, List.map_cons, List.mem_append, List.mem_cons, not_or] at fresh
    simp only [List.mem_append, not_or]
    exact ⟨⟨fresh.1, fresh.2.2⟩, nodup.2⟩

namespace Registry

structure WellShaped (r : Registry) : Prop where
  owner : ∀ app ∈ r.apps, ∃! account, app.IsOwner account
  names : ∀ app ∈ r.apps, (app.deployments.map (·.name)).Nodup
  keys : r.keys.Nodup

-- The keys that a call takes, one for each deployment that it adds.
def Call.keys : Call → List AccessKey
  | .addApp _ _ names keyOf => (List.range names.eraseDups.length).map keyOf
  | .addDeployment _ _ _ key => [key]
  | _ => []

-- A refused call takes no keys.
def taken (r : Registry) (c : Call) : List AccessKey :=
  match r.outcome c with
  | .ok _ => c.keys
  | .error _ => []

-- The keys that the calls of a run take, one after another.
def takenBy (r : Registry) : List Call → List AccessKey
  | [] => []
  | c :: rest => r.taken c ++ (r.after c).takenBy rest

theorem wellShaped_empty : empty.WellShaped :=
  ⟨nofun, nofun, .nil⟩

variable {r r' : Registry} {account : Email} {name : String} {app : App} {c : Call} {f : App → App}

theorem mem_of_app (found : r.app account name = .ok app) : app ∈ r.apps :=
  List.mem_of_find?_eq_some (app_eq_ok.mp found)

-- Of a change, only what it makes of the app that is found has to be known.
theorem forall_mem_change {P : App → Prop} (all : ∀ app ∈ r.apps, P app)
    (found : r.app account name = .ok app) (new : P app → P (f app)) :
    ∀ app ∈ (r.change account name f).apps, P app := by
  have ⟨before, after, split, changed, _⟩ := changeFirst_split (app_eq_ok.mp found) f
  intro b mem
  rw [Registry.change, changed] at mem
  rw [split] at all
  simp only [List.mem_append, List.mem_cons] at all mem
  rcases mem with mem | rfl | mem
  · exact all b (.inl mem)
  · exact new (all app (.inr (.inl rfl)))
  · exact all b (.inr (.inr mem))

theorem forall_mem_append {P : App → Prop} (all : ∀ app ∈ r.apps, P app) (new : P app) :
    ∀ b ∈ r.apps ++ [app], P b := by
  intro b mem
  rcases List.mem_append.mp mem with mem | mem
  · exact all b mem
  · exact (List.mem_singleton.mp mem).symm ▸ new

theorem Step.owner (s : Step r c r') (all : ∀ app ∈ r.apps, ∃! account, app.IsOwner account) :
    ∀ app ∈ r'.apps, ∃! account, app.IsOwner account := by
  cases s
  case addApp account _ _ app _ alone _ =>
    refine forall_mem_append all ⟨account, ?_, fun x owner => ?_⟩
    · simp [App.IsOwner, alone, Collaborators.find_insert_self]
    · simpa [App.IsOwner, alone, Collaborators.find_insert, Collaborators.find_empty] using owner
  case removeApp => exact fun app mem => all app (List.mem_of_mem_eraseP mem)
  case transferToSelf => exact all
  case transferApp newOwner app found owner _ _ =>
    refine forall_mem_change all found fun one => ⟨newOwner, ?_, fun x => ?_⟩
    all_goals have only (x : Email) (h : app.IsOwner x) := one.unique h owner
    · exact (Collaborators.find_transfer only).mpr rfl
    · exact (Collaborators.find_transfer only).mp
  case addCollaborator found _ new _ =>
    refine forall_mem_change all found fun one => ?_
    simpa only [App.IsOwner, Collaborators.find_insert_collaborator new] using one
  case removeCollaborator found _ old =>
    refine forall_mem_change all found fun one => ?_
    simpa only [App.IsOwner, Collaborators.find_erase_owner old] using one
  case renameApp found _ _ | addDeployment found _ _ | renameDeployment found _ _ _
      | removeDeployment found _ _ =>
    exact forall_mem_change all found id

theorem Step.names (s : Step r c r') (all : ∀ app ∈ r.apps, (app.deployments.map (·.name)).Nodup) :
    ∀ app ∈ r'.apps, (app.deployments.map (·.name)).Nodup := by
  cases s
  case addApp _ names keyOf app _ _ listed =>
    refine forall_mem_append all ?_
    have named : app.deployments.map (·.name) = names.eraseDups := by
      rw [listed]
      apply List.ext_getElem <;> simp
    rw [named]
    exact nodup_eraseDups names
  case removeApp => exact fun app mem => all app (List.mem_of_mem_eraseP mem)
  case transferToSelf => exact all
  case addDeployment fresh =>
    refine forall_mem_change all ‹_› fun nodup => ?_
    rw [List.map_append, List.nodup_append]
    refine ⟨nodup, List.nodup_singleton _, ?_⟩
    simpa [App.HasDeployment] using fresh
  case renameDeployment found _ target fresh =>
    refine forall_mem_change all found fun nodup => ?_
    refine nodup_names_rename nodup (deployment_eq_ok.mp target) fun ne => ?_
    simpa [App.HasDeployment] using fresh ne
  case removeDeployment found _ _ =>
    refine forall_mem_change all found fun nodup => ?_
    exact nodup.sublist (List.eraseP_sublist.map _)
  case renameApp found _ _ | transferApp found _ _ _ | addCollaborator found _ _ _
      | removeCollaborator found _ _ =>
    exact forall_mem_change all found id

theorem keys_change (found : r.app account name = .ok app) (f : App → App) :
    ∃ others, r.keys.Perm (app.deployments.map (·.key) ++ others) ∧
      (r.change account name f).keys.Perm ((f app).deployments.map (·.key) ++ others) := by
  have ⟨before, after, split, changed, _⟩ := changeFirst_split (app_eq_ok.mp found) f
  have perm (a : App) : (keys ⟨before ++ a :: after⟩).Perm
      (a.deployments.map (·.key) ++ keys ⟨before ++ after⟩) := by
    simp only [Registry.keys, List.flatMap_append, List.flatMap_cons]
    exact List.perm_append_comm_assoc ..
  refine ⟨keys ⟨before ++ after⟩, ?_, ?_⟩
  · rw [show r = ⟨before ++ app :: after⟩ from Registry.ext split]
    exact perm app
  · rw [Registry.change, changed]
    exact perm (f app)

-- A change adds no more keys to the registry than to the one app.
theorem keys_change_subperm {new : List AccessKey} (found : r.app account name = .ok app)
    (sub : ((f app).deployments.map (·.key)).Sublist (app.deployments.map (·.key) ++ new)) :
    (r.change account name f).keys.Subperm (r.keys ++ new) := by
  have ⟨others, before, after⟩ := keys_change found f
  have more := (sub.append_right others).subperm
  have swap : (app.deployments.map (·.key) ++ new ++ others).Perm
      (app.deployments.map (·.key) ++ others ++ new) := by
    simpa only [List.append_assoc] using List.perm_append_comm.append_left _
  have back := before.symm.append_right new
  exact after.subperm.trans (more.trans (swap.trans back).subperm)

-- The keys after a call are among those before it and those that it takes.
theorem Step.keys_subperm (s : Step r c r') : r'.keys.Subperm (r.keys ++ c.keys) := by
  cases s
  case addApp _ names keyOf app _ _ listed =>
    have keys : app.deployments.map (·.key) = (List.range names.eraseDups.length).map keyOf := by
      rw [listed]
      apply List.ext_getElem <;> simp
    rw [Registry.keys, List.flatMap_append, List.flatMap_singleton, keys]
    exact List.Subperm.refl _
  case removeApp found owner =>
    refine List.Subperm.trans ?_ (List.sublist_append_left ..).subperm
    exact (List.eraseP_sublist.flatMap _).subperm
  case transferToSelf => exact (List.sublist_append_left ..).subperm
  case addDeployment found _ _ => exact keys_change_subperm found (by simp [Call.keys])
  case renameDeployment found _ _ _ =>
    refine keys_change_subperm found ?_
    rw [map_changeFirst]
    · exact List.sublist_append_left ..
    · exact fun _ _ => rfl
  case removeDeployment found _ _ =>
    refine keys_change_subperm found ?_
    exact (List.eraseP_sublist.map _).trans (List.sublist_append_left ..)
  case renameApp found _ _ | transferApp found _ _ _ | addCollaborator found _ _ _
      | removeCollaborator found _ _ =>
    exact keys_change_subperm found (List.sublist_append_left ..)

theorem Step.wellShaped (s : Step r c r') (w : r.WellShaped) (fresh : (r.keys ++ c.keys).Nodup) :
    r'.WellShaped := by
  refine ⟨s.owner w.owner, s.names w.names, ?_⟩
  have ⟨ks, perm, sub⟩ := s.keys_subperm
  exact perm.nodup_iff.mp (fresh.sublist sub)

theorem after_wellShaped (w : r.WellShaped) (fresh : (r.keys ++ r.taken c).Nodup) :
    (r.after c).WellShaped ∧ (r.after c).keys ⊆ r.keys ++ r.taken c := by
  unfold taken at fresh ⊢
  unfold Registry.after
  cases h : r.outcome c with
  | error e => exact ⟨w, List.subset_append_left ..⟩
  | ok r' =>
    rw [h] at fresh
    have s := outcome_eq_ok.mp h
    exact ⟨s.wellShaped w fresh, s.keys_subperm.subset⟩

-- Keys that have been taken may be gone from the registry, but they do not come back.
theorem run_wellShaped (calls : List Call) {used : List AccessKey} (w : r.WellShaped)
    (sub : r.keys ⊆ used) (fresh : (used ++ r.takenBy calls).Nodup) :
    (r.run calls).WellShaped := by
  induction calls generalizing r used with
  | nil => exact w
  | cons c rest ih =>
    rw [takenBy, ← List.append_assoc] at fresh
    have now : (r.keys ++ r.taken c).Nodup := by
      have ⟨_, takes, apart⟩ := List.nodup_append.mp (List.nodup_append.mp fresh).1
      exact List.nodup_append.mpr ⟨w.keys, takes, fun k mem => apart k (sub mem)⟩
    have ⟨w', sub'⟩ := after_wellShaped w now
    refine ih w' (List.Subset.trans sub' ?_) fresh
    exact List.append_subset.mpr
      ⟨List.subset_append_of_subset_left _ sub, List.subset_append_right ..⟩

theorem wellShaped_of_run (calls : List Call) (fresh : (empty.takenBy calls).Nodup) :
    (empty.run calls).WellShaped :=
  run_wellShaped calls wellShaped_empty (List.nil_subset []) fresh

-- Ann's app with a deployment that is named twice, handed on to Bob, who adds another deployment.
theorem wellShaped_of_run_handedOn :
    let ann : Email := ⟨"ann@example.com"⟩
    let bob : Email := ⟨"bob@example.com"⟩
    let x : Name := ⟨"X", by decide⟩
    let staging : Name := ⟨"Staging", by decide⟩
    let beta : Name := ⟨"Beta", by decide⟩
    let calls : List Call := [
      .addApp ann x [staging, staging] fun i => if i = 0 then ⟨"a"⟩ else ⟨"b"⟩,
      .transferApp ann "X" bob, .addDeployment ann "X" beta ⟨"a"⟩,
      .addDeployment bob "X" beta ⟨"b"⟩]
    empty.takenBy calls = [⟨"a"⟩, ⟨"b"⟩] ∧ (empty.takenBy calls).Nodup ∧
      (empty.run calls).WellShaped := by
  intro ann bob x staging beta calls
  have taken : empty.takenBy calls = [⟨"a"⟩, ⟨"b"⟩] := by decide
  have fresh : (empty.takenBy calls).Nodup := by rw [taken]; decide
  exact ⟨taken, fresh, wellShaped_of_run calls fresh⟩

end Registry
end AirRelease
