import AirRelease.Proofs.Registry.Keys

namespace AirRelease

theorem filter_changeFirst {α : Type} {p q : α → Bool} (sub : ∀ a, p a → q a) (f : α → α) (as : List α) :
    (changeFirst p f as).filter q = (changeFirst p f (as.filter q)).filter q := by
  induction as with
  | nil => rfl
  | cons a rest ih =>
    cases hp : p a
    case true => simp [changeFirst, hp, sub a hp, List.filter_cons]
    case false =>
      cases hq : q a
      case true => simp [changeFirst, hp, hq, ih]
      case false => simp [changeFirst, hp, hq, ih]

namespace Registry

variable {r r' : Registry} {account : Email} {name : String} {α : Type}

-- The part of the registry that the account sees.
def seen (r : Registry) (account : Email) : Registry :=
  ⟨r.visible account⟩

section Seen

theorem has_of_matching (app : App) (found : matching account name app) :
    (decide (app.collaborators.Has account)) = true := by
  simp only [matching, Bool.and_eq_true] at found
  exact found.2

theorem visible_seen : (r.seen account).visible account = r.visible account := by
  simp [seen, visible]

theorem app_seen : (r.seen account).app account name = r.app account name := by
  have found : (r.visible account).find? (matching account name) = r.apps.find? (matching account name) := by
    rw [visible, List.find?_filter]
    congr 1
    funext app
    cases hm : matching account name app
    case true => simp [has_of_matching app hm]
    case false => simp
  rw [Registry.app, seen, found]
  rfl

theorem ownApp_seen : (r.seen account).ownApp account name = r.ownApp account name := by
  rw [ownApp, app_seen]
  rfl

theorem sees_seen {new : Name} : (r.seen account).Sees account new ↔ r.Sees account new := by
  rw [Sees, Sees, visible_seen]

theorem app_congr (same : r.visible account = r'.visible account) :
    r.app account name = r'.app account name := by
  rw [← app_seen, ← app_seen (r := r'), seen, seen, same]

theorem keys_seen_subset (account : Email) : (r.seen account).keys ⊆ r.keys := by
  intro key mem
  obtain ⟨app, mem, key_mem⟩ := List.mem_flatMap.mp mem
  exact List.mem_flatMap.mpr ⟨app, List.mem_of_mem_filter mem, key_mem⟩

theorem mem_keys_of_app {found : App} (ok : r.app account name = .ok found) {d : Deployment}
    (mem : d ∈ found.deployments) : d.key ∈ (r.seen account).keys := by
  rw [← app_seen] at ok
  exact List.mem_flatMap.mpr ⟨found, mem_of_app ok, List.mem_map_of_mem mem⟩

theorem visible_change (f : App → App) :
    (r.change account name f).visible account = ((r.seen account).change account name f).visible account :=
  filter_changeFirst has_of_matching f r.apps

theorem visible_eraseP (r : Registry) (account : Email) (name : String) :
    visible ⟨r.apps.eraseP (matching account name)⟩ account =
      visible ⟨(r.visible account).eraseP (matching account name)⟩ account := by
  have both : (fun app : App => matching account name app && decide (app.collaborators.Has account)) =
      matching account name := by
    funext app
    cases hm : matching account name app
    case true => simp [has_of_matching app hm]
    case false => rfl
  simp only [visible, List.eraseP_filter, both, List.filter_filter, Bool.and_self]

theorem visible_append (r : Registry) (account : Email) (app : App) :
    visible ⟨r.apps ++ [app]⟩ account = visible ⟨r.visible account ++ [app]⟩ account := by
  simp [visible]

end Seen

-- The answer to an account's operation, and what the account sees afterwards.
def watched (account : Email) (x : Except RegistryError (α × Registry)) : Except RegistryError (α × List App) :=
  x.map fun (a, r) => (a, r.visible account)

-- The operation does for the account as much as it would if all other apps were not there.
def Blind (account : Email) (f : Registry → Except RegistryError (α × Registry)) : Prop :=
  ∀ r, watched account (f r) = watched account (f (r.seen account))

namespace Blind

variable {f : Registry → Except RegistryError (α × Registry)} (blind : Blind account f)
include blind

theorem congr (same : r.visible account = r'.visible account) :
    watched account (f r) = watched account (f r') := by
  rw [blind r, blind r', seen, seen, same]

-- What the account sees afterwards has the keys of what it saw before, and new ones.
theorem mem_keys {a : α} {c : Call} {key : AccessKey} (carries : ∀ r, (f r).map (·.2) = r.outcome c)
    (ok : f r = .ok (a, r')) (mem : key ∈ (r'.seen account).keys) :
    key ∈ (r.seen account).keys ∨ key ∈ c.keys := by
  have alone := blind r
  rw [ok] at alone
  obtain ⟨⟨b, q⟩, done, same⟩ := map_eq_ok.mp alone.symm
  have step : Step (r.seen account) c q := outcome_eq_ok.mp (by rw [← carries, done]; rfl)
  have visible : q.visible account = r'.visible account := (Prod.mk.inj same).2
  rw [seen, ← visible] at mem
  have mem : key ∈ q.keys := keys_seen_subset account mem
  exact List.mem_append.mp (step.keys_append.subset (List.mem_append_left _ mem))

end Blind

section Operations

variable {old app : String} {new : Name} {email : Email} {key : AccessKey} {a : α}

theorem watched_ok (same : r.visible account = r'.visible account) :
    watched account (.ok (a, r)) = watched account (.ok (a, r')) :=
  congrArg (fun apps => Except.ok (a, apps)) same

theorem watched_bind {β : Type} (x : Except RegistryError β) (f : β → Except RegistryError (α × Registry)) :
    watched account (x >>= f) = x >>= fun b => watched account (f b) := by
  cases x <;> rfl

theorem blind_addApp {names : List Name} {keyOf : Nat → AccessKey} :
    Blind account (·.addApp account new names keyOf) := by
  intro r
  simp only [Registry.addApp, sees_seen]
  split
  case isTrue => rfl
  case isFalse => exact watched_ok (visible_append r account _)

theorem blind_renameApp : Blind account fun r => return (a, ← r.renameApp account old new) := by
  intro r
  simp only [Registry.renameApp, ownApp_seen, sees_seen, bind_assoc, watched_bind]
  refine bind_congr fun found => ?_
  split
  case isTrue => rfl
  case isFalse => exact watched_ok (visible_change _)

theorem blind_removeApp : Blind account (·.removeApp account name) := by
  intro r
  simp only [Registry.removeApp, ownApp_seen, watched_bind]
  exact bind_congr fun found => watched_ok (visible_eraseP r account name)

theorem blind_removeCollaborator :
    Blind account fun r => return (a, ← r.removeCollaborator account app email) := by
  intro r
  simp only [Registry.removeCollaborator, app_seen, bind_assoc, watched_bind]
  refine bind_congr fun found => ?_
  rcases found.collaborators.find email with _ | _ | _
  case none | some.owner => rfl
  case some.collaborator =>
    split
    case isTrue =>
      simp only [bind_assoc]
      exact bind_congr fun _ => watched_ok (visible_change _)
    case isFalse => exact watched_ok (visible_change _)

theorem blind_addDeployment : Blind account (·.addDeployment account app new key) := by
  intro r
  simp only [Registry.addDeployment, ownApp_seen, watched_bind]
  refine bind_congr fun found => ?_
  split
  case isTrue => rfl
  case isFalse => exact watched_ok (visible_change _)

theorem blind_renameDeployment :
    Blind account fun r => return (a, ← r.renameDeployment account app old new) := by
  intro r
  simp only [Registry.renameDeployment, ownApp_seen, bind_assoc, watched_bind]
  refine bind_congr fun found => bind_congr fun _ => ?_
  split
  case isTrue => rfl
  case isFalse => exact watched_ok (visible_change _)

theorem blind_removeDeployment : Blind account (·.removeDeployment account app name) := by
  intro r
  simp only [Registry.removeDeployment, ownApp_seen, watched_bind]
  exact bind_congr fun found => bind_congr fun removed => watched_ok (visible_change _)

end Operations

end Registry
end AirRelease
