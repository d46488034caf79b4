import AirRelease.Proofs.Registry.Shape

namespace AirRelease.Registry

open scoped List

-- The keys of the deployments that an accepted call removes.
def dropped (r : Registry) : Call → List AccessKey
  | .removeApp account name =>
    match r.removeApp account name with
    | .ok (app, _) => app.deployments.map (·.key)
    | .error _ => []
  | .removeDeployment account app name =>
    match r.removeDeployment account app name with
    | .ok (d, _) => [d.key]
    | .error _ => []
  | _ => []

variable {r r' : Registry} {account : Email} {name : String} {app : App} {c : Call} {f : App → App}
  {lost new : List AccessKey}

theorem dropped_of_refused {e : RegistryError} (refused : r.outcome c = .error e) : r.dropped c = [] := by
  cases c
  case removeApp account name =>
    simp only [outcome, dropped] at refused ⊢
    cases removed : r.removeApp account name with
    | ok => simp [removed, Except.map] at refused
    | error => rfl
  case removeDeployment account app name =>
    simp only [outcome, dropped] at refused ⊢
    cases removed : r.removeDeployment account app name with
    | ok => simp [removed, Except.map] at refused
    | error => rfl
  all_goals rfl

-- Of a change, only the keys of the app that is found have to be known.
theorem keys_change_append (found : r.app account name = .ok app)
    (parts : (f app).deployments.map (·.key) ++ lost ~ app.deployments.map (·.key) ++ new) :
    (r.change account name f).keys ++ lost ~ r.keys ++ new := by
  have ⟨others, before, after⟩ := keys_change found f
  have swap (front back : List AccessKey) : front ++ others ++ back ~ front ++ back ++ others := by
    simpa only [List.append_assoc] using List.perm_append_comm.append_left front
  calc (r.change account name f).keys ++ lost
    _ ~ (f app).deployments.map (·.key) ++ others ++ lost := after.append_right lost
    _ ~ (f app).deployments.map (·.key) ++ lost ++ others := swap ..
    _ ~ app.deployments.map (·.key) ++ new ++ others := parts.append_right others
    _ ~ app.deployments.map (·.key) ++ others ++ new := (swap ..).symm
    _ ~ r.keys ++ new := before.symm.append_right new

theorem perm_eraseP {α : Type} {p : α → Bool} {as : List α} {a : α} (found : as.find? p = some a) :
    as.eraseP p ++ [a] ~ as := by
  induction as with
  | nil => cases found
  | cons b rest ih =>
    cases is : p b
    case true =>
      rw [List.find?_cons_of_pos is, Option.some.injEq] at found
      rw [List.eraseP_cons_of_pos is, found]
      exact List.perm_append_singleton a rest
    case false =>
      rw [List.find?_cons_of_neg (by simp [is])] at found
      rw [List.eraseP_cons_of_neg (by simp [is])]
      exact (ih found).cons b

theorem Step.keys_append (s : Step r c r') : r'.keys ++ r.dropped c ~ r.keys ++ c.keys := by
  cases s
  case addApp _ names keyOf app _ _ listed =>
    have keys : app.deployments.map (·.key) = (List.range names.eraseDups.length).map keyOf := by
      rw [listed]
      apply List.ext_getElem <;> simp
    have appended : Registry.keys ⟨r.apps ++ [app]⟩ = r.keys ++ app.deployments.map (·.key) := by
      rw [Registry.keys, List.flatMap_append, List.flatMap_singleton, Registry.keys]
    rw [appended, keys]
    exact .of_eq (List.append_nil _)
  case removeApp account name app found owner =>
    have removed := removeApp_eq_ok.mpr ⟨⟨found, owner⟩, rfl⟩
    have split := (perm_eraseP (app_eq_ok.mp found)).flatMap_right fun app => app.deployments.map (·.key)
    simp only [dropped, removed, Call.keys, List.append_nil]
    rwa [List.flatMap_append, List.flatMap_singleton] at split
  case removeDeployment account appName name d app found owner target =>
    have removed := removeDeployment_eq_ok.mpr ⟨app, ⟨found, owner⟩, target, rfl⟩
    simp only [dropped, removed]
    refine keys_change_append found ?_
    have split := (perm_eraseP (deployment_eq_ok.mp target)).map (·.key)
    simpa [Call.keys] using split
  case transferToSelf => exact .rfl
  case addDeployment found _ _ =>
    refine keys_change_append found ?_
    simp [dropped, Call.keys]
  case renameDeployment found _ _ _ =>
    refine keys_change_append found ?_
    rw [map_changeFirst]
    · exact .rfl
    · exact fun _ _ => rfl
  case renameApp found _ _ | transferApp found _ _ _ | addCollaborator found _ _ _
      | removeCollaborator found _ _ =>
    exact keys_change_append found .rfl

theorem keys_after (r : Registry) (c : Call) : (r.after c).keys ++ r.dropped c ~ r.keys ++ r.taken c := by
  unfold taken Registry.after
  cases done : r.outcome c with
  | ok r' => exact (outcome_eq_ok.mp done).keys_append
  | error e => rw [dropped_of_refused done]

section Keys

variable {key : AccessKey}

theorem mem_keys_after (mem : key ∈ (r.after c).keys) : key ∈ r.keys ∨ key ∈ r.taken c :=
  List.mem_append.mp ((keys_after r c).subset (List.mem_append_left _ mem))

theorem mem_keys_after_or_dropped (mem : key ∈ r.keys) : key ∈ (r.after c).keys ∨ key ∈ r.dropped c :=
  List.mem_append.mp ((keys_after r c).symm.subset (List.mem_append_left _ mem))

theorem nodup_after (fresh : (r.keys ++ r.taken c).Nodup) : ((r.after c).keys ++ r.dropped c).Nodup :=
  (keys_after r c).nodup_iff.mpr fresh

end Keys

end AirRelease.Registry
