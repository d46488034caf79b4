import AirRelease.Proofs.Success
import AirRelease.Registry

namespace AirRelease.Registry

inductive Call
  | addApp (account : Email) (name : Name) (deployments : List Name) (keys : Nat → AccessKey)
  | renameApp (account : Email) (old : String) (new : Name)
  | removeApp (account : Email) (name : String)
  | transferApp (account : Email) (name : String) (newOwner : Email)
  | addCollaborator (account : Email) (name : String) (email : Email)
  | removeCollaborator (account : Email) (name : String) (email : Email)
  | addDeployment (account : Email) (app : String) (name : Name) (key : AccessKey)
  | renameDeployment (account : Email) (app : String) (old : String) (new : Name)
  | removeDeployment (account : Email) (app : String) (name : String)

-- The registry that a call leaves, if it is accepted.
def outcome (r : Registry) : Call → Except RegistryError Registry
  | .addApp account name deployments keys => (r.addApp account name deployments keys).map (·.2)
  | .renameApp account old new => r.renameApp account old new
  | .removeApp account name => (r.removeApp account name).map (·.2)
  | .transferApp account name newOwner => r.transferApp account name newOwner
  | .addCollaborator account name email => r.addCollaborator account name email
  | .removeCollaborator account name email => r.removeCollaborator account name email
  | .addDeployment account app name key => (r.addDeployment account app name key).map (·.2)
  | .renameDeployment account app old new => r.renameDeployment account app old new
  | .removeDeployment account app name => (r.removeDeployment account app name).map (·.2)

-- A refused call leaves the registry as it is.
def after (r : Registry) (c : Call) : Registry :=
  match r.outcome c with
  | .ok r' => r'
  | .error _ => r

def run (r : Registry) (calls : List Call) : Registry :=
  calls.foldl after r

section Lookup

variable {r : Registry} {account : Email} {name : String} {app : App}

theorem app_eq_ok :
    r.app account name = .ok app ↔ r.apps.find? (matching account name) = some app := by
  unfold Registry.app
  cases r.apps.find? (matching account name) <;> simp

theorem has_of_app (found : r.app account name = .ok app) : app.collaborators.Has account := by
  have h := List.find?_some (app_eq_ok.mp found)
  simp only [matching, Bool.and_eq_true, decide_eq_true_eq] at h
  exact h.2

theorem name_of_app (found : r.app account name = .ok app) : app.name.text = name := by
  have h := List.find?_some (app_eq_ok.mp found)
  simp only [matching, Bool.and_eq_true, decide_eq_true_eq] at h
  exact h.1

theorem requireOwner_eq_ok {u : Unit} : app.requireOwner account = .ok u ↔ app.IsOwner account := by
  simp [App.requireOwner]

theorem ownApp_eq_ok :
    r.ownApp account name = .ok app ↔ r.app account name = .ok app ∧ app.IsOwner account := by
  simp only [ownApp, bind_eq_ok, requireOwner_eq_ok, pure_eq_ok]
  constructor
  · rintro ⟨_, found, _, owner, rfl⟩
    exact ⟨found, owner⟩
  · rintro ⟨found, owner⟩
    exact ⟨app, found, (), owner, rfl⟩

theorem deployment_eq_ok {d : Deployment} :
    app.deployment name = .ok d ↔ app.deployments.find? (·.name.text = name) = some d := by
  unfold App.deployment
  cases app.deployments.find? (·.name.text = name) <;> simp

theorem sees_iff {x : Email} {n : Name} :
    r.Sees x n ↔ ∃ app ∈ r.apps, app.collaborators.Has x ∧ app.name = n := by
  simp [Sees, visible]

end Lookup

section Operations

variable {r r' : Registry} {account email : Email} {name : String} {new : Name} {app : App}
  {d : Deployment}

theorem addApp_eq_ok {names : List Name} {keyOf : Nat → AccessKey} :
    r.addApp account new names keyOf = .ok (app, r') ↔
      ¬r.Sees account new ∧ app = {
        name := new
        collaborators := Collaborators.empty.insert account .owner
        deployments := names.eraseDups.mapIdx fun i name => ⟨name, keyOf i⟩
      } ∧ r' = ⟨r.apps ++ [app]⟩ := by
  simp only [Registry.addApp, ite_error_eq_ok, Except.ok.injEq, Prod.mk.injEq]
  constructor
  · rintro ⟨fresh, rfl, rfl⟩
    exact ⟨fresh, rfl, rfl⟩
  · rintro ⟨fresh, rfl, rfl⟩
    exact ⟨fresh, rfl, rfl⟩

theorem renameApp_eq_ok :
    r.renameApp account name new = .ok r' ↔
      ∃ app, (r.app account name = .ok app ∧ app.IsOwner account) ∧
        (new.text ≠ name → ¬r.Sees account new) ∧
        r.change account name ({ · with name := new }) = r' := by
  simp [Registry.renameApp, ownApp_eq_ok]

theorem removeApp_eq_ok :
    r.removeApp account name = .ok (app, r') ↔
      (r.app account name = .ok app ∧ app.IsOwner account) ∧
        ⟨r.apps.eraseP (matching account name)⟩ = r' := by
  simp [Registry.removeApp, ownApp_eq_ok]

theorem transferApp_eq_ok :
    r.transferApp account name email = .ok r' ↔
      ∃ app, (r.app account name = .ok app ∧ app.IsOwner account) ∧
        if email = account then r = r' else
          (app.collaborators.Has email ∨ ¬r.Sees email app.name) ∧
          r.change account name (fun app =>
            { app with collaborators :=
                (app.collaborators.insert account .collaborator).insert email .owner }) = r' := by
  by_cases self : email = account
  case pos => simp [Registry.transferApp, ownApp_eq_ok, self]
  case neg => simp [Registry.transferApp, ownApp_eq_ok, self, Decidable.or_iff_not_imp_left]

theorem addCollaborator_eq_ok :
    r.addCollaborator account name email = .ok r' ↔
      ∃ app, (r.app account name = .ok app ∧ app.IsOwner account) ∧
        ¬app.collaborators.Has email ∧ ¬r.Sees email app.name ∧
        r.change account name (fun app =>
          { app with collaborators := app.collaborators.insert email .collaborator }) = r' := by
  simp [Registry.addCollaborator, ownApp_eq_ok]

theorem removeCollaborator_eq_ok :
    r.removeCollaborator account name email = .ok r' ↔
      ∃ app, r.app account name = .ok app ∧ (email ≠ account → app.IsOwner account) ∧
        app.collaborators.find email = some .collaborator ∧
        r.change account name (fun app =>
          { app with collaborators := app.collaborators.erase email }) = r' := by
  rw [Registry.removeCollaborator, bind_eq_ok]
  refine exists_congr fun app => and_congr_right fun _ => ?_
  by_cases self : email = account
  all_goals
    simp only [self, ne_eq, not_true_eq_false, not_false_eq_true, if_true, if_false]
    rcases app.collaborators.find _ with _ | _ | _ <;> simp [requireOwner_eq_ok]

theorem addDeployment_eq_ok {key : AccessKey} :
    r.addDeployment account name new key = .ok (d, r') ↔
      ∃ app, (r.app account name = .ok app ∧ app.IsOwner account) ∧
        ¬app.HasDeployment new ∧ ⟨new, key⟩ = d ∧
        r.change account name (fun app =>
          { app with deployments := app.deployments ++ [⟨new, key⟩] }) = r' := by
  simp [Registry.addDeployment, ownApp_eq_ok]

theorem renameDeployment_eq_ok {old : String} :
    r.renameDeployment account name old new = .ok r' ↔
      ∃ app, (r.app account name = .ok app ∧ app.IsOwner account) ∧
        (∃ d, app.deployment old = .ok d) ∧ (new.text ≠ old → ¬app.HasDeployment new) ∧
        r.change account name (fun app =>
          { app with deployments :=
              changeFirst (·.name.text = old) ({ · with name := new }) app.deployments }) = r' := by
  simp [Registry.renameDeployment, ownApp_eq_ok]

theorem removeDeployment_eq_ok {old : String} :
    r.removeDeployment account name old = .ok (d, r') ↔
      ∃ app, (r.app account name = .ok app ∧ app.IsOwner account) ∧ app.deployment old = .ok d ∧
        r.change account name (fun app =>
          { app with deployments := app.deployments.eraseP (·.name.text = old) }) = r' := by
  simp [Registry.removeDeployment, ownApp_eq_ok]

end Operations

-- What an accepted call has checked and does, one case for each kind of call. A transfer to oneself
-- changes nothing.
inductive Step (r : Registry) : Call → Registry → Prop
  | addApp (app : App) (fresh : ¬r.Sees account app.name)
      (alone : app.collaborators = Collaborators.empty.insert account .owner)
      (listed : app.deployments = names.eraseDups.mapIdx fun i name => ⟨name, keyOf i⟩) :
      Step r (.addApp account app.name names keyOf) ⟨r.apps ++ [app]⟩
  | renameApp {app : App} (found : r.app account old = .ok app) (owner : app.IsOwner account)
      (fresh : new.text ≠ old → ¬r.Sees account new) :
      Step r (.renameApp account old new) (r.change account old ({ · with name := new }))
  | removeApp {app : App} (found : r.app account name = .ok app) (owner : app.IsOwner account) :
      Step r (.removeApp account name) ⟨r.apps.eraseP (matching account name)⟩
  | transferToSelf {app : App} (found : r.app account name = .ok app)
      (owner : app.IsOwner account) :
      Step r (.transferApp account name account) r
  | transferApp {app : App} (found : r.app account name = .ok app) (owner : app.IsOwner account)
      (ne : newOwner ≠ account)
      (fresh : app.collaborators.Has newOwner ∨ ¬r.Sees newOwner app.name) :
      Step r (.transferApp account name newOwner) (r.change account name fun app =>
        { app with collaborators :=
            (app.collaborators.insert account .collaborator).insert newOwner .owner })
  | addCollaborator {app : App} (found : r.app account name = .ok app) (owner : app.IsOwner account)
      (new : ¬app.collaborators.Has email) (fresh : ¬r.Sees email app.name) :
      Step r (.addCollaborator account name email) (r.change account name fun app =>
        { app with collaborators := app.collaborators.insert email .collaborator })
  | removeCollaborator {app : App} (found : r.app account name = .ok app)
      (owner : email ≠ account → app.IsOwner account)
      (old : app.collaborators.find email = some .collaborator) :
      Step r (.removeCollaborator account name email) (r.change account name fun app =>
        { app with collaborators := app.collaborators.erase email })
  | addDeployment {app : App} (found : r.app account appName = .ok app)
      (owner : app.IsOwner account) (fresh : ¬app.HasDeployment name) :
      Step r (.addDeployment account appName name key) (r.change account appName fun app =>
        { app with deployments := app.deployments ++ [⟨name, key⟩] })
  | renameDeployment {app : App} (found : r.app account appName = .ok app)
      (owner : app.IsOwner account) (target : app.deployment old = .ok d)
      (fresh : new.text ≠ old → ¬app.HasDeployment new) :
      Step r (.renameDeployment account appName old new) (r.change account appName fun app =>
        { app with deployments :=
            changeFirst (·.name.text = old) ({ · with name := new }) app.deployments })
  | removeDeployment {app : App} (found : r.app account appName = .ok app)
      (owner : app.IsOwner account) (target : app.deployment name = .ok d) :
      Step r (.removeDeployment account appName name) (r.change account appName fun app =>
        { app with deployments := app.deployments.eraseP (·.name.text = name) })

theorem outcome_eq_ok {r r' : Registry} {c : Call} : r.outcome c = .ok r' ↔ Step r c r' := by
  constructor
  case mp =>
    intro ok
    cases c <;> simp only [outcome, map_eq_ok, Prod.exists, exists_eq_right] at ok
    case addApp =>
      obtain ⟨_, ok⟩ := ok
      obtain ⟨fresh, rfl, rfl⟩ := addApp_eq_ok.mp ok
      exact .addApp ⟨_, _, _⟩ fresh rfl rfl
    case renameApp =>
      obtain ⟨_, ⟨found, owner⟩, fresh, rfl⟩ := renameApp_eq_ok.mp ok
      exact .renameApp found owner fresh
    case removeApp =>
      obtain ⟨_, ok⟩ := ok
      obtain ⟨⟨found, owner⟩, rfl⟩ := removeApp_eq_ok.mp ok
      exact .removeApp found owner
    case transferApp =>
      obtain ⟨_, ⟨found, owner⟩, branch⟩ := transferApp_eq_ok.mp ok
      split at branch
      case isTrue self =>
        subst self branch
        exact .transferToSelf found owner
      case isFalse ne => exact branch.2 ▸ .transferApp found owner ne branch.1
    case addCollaborator =>
      obtain ⟨_, ⟨found, owner⟩, new, fresh, rfl⟩ := addCollaborator_eq_ok.mp ok
      exact .addCollaborator found owner new fresh
    case removeCollaborator =>
      obtain ⟨_, found, owner, old, rfl⟩ := removeCollaborator_eq_ok.mp ok
      exact .removeCollaborator found owner old
    case addDeployment =>
      obtain ⟨_, ok⟩ := ok
      obtain ⟨_, ⟨found, owner⟩, fresh, rfl, rfl⟩ := addDeployment_eq_ok.mp ok
      exact .addDeployment found owner fresh
    case renameDeployment =>
      obtain ⟨_, ⟨found, owner⟩, ⟨_, target⟩, fresh, rfl⟩ := renameDeployment_eq_ok.mp ok
      exact .renameDeployment found owner target fresh
    case removeDeployment =>
      obtain ⟨_, ok⟩ := ok
      obtain ⟨_, ⟨found, owner⟩, target, rfl⟩ := removeDeployment_eq_ok.mp ok
      exact .removeDeployment found owner target
  case mpr =>
    intro s
    cases s <;> simp only [outcome, map_eq_ok, Prod.exists, exists_eq_right]
    case addApp fresh alone listed =>
      exact ⟨_, addApp_eq_ok.mpr ⟨fresh, alone ▸ listed ▸ rfl, rfl⟩⟩
    case renameApp found owner fresh =>
      exact renameApp_eq_ok.mpr ⟨_, ⟨found, owner⟩, fresh, rfl⟩
    case removeApp found owner => exact ⟨_, removeApp_eq_ok.mpr ⟨⟨found, owner⟩, rfl⟩⟩
    case transferToSelf found owner =>
      exact transferApp_eq_ok.mpr ⟨_, ⟨found, owner⟩, by simp⟩
    case transferApp found owner ne fresh =>
      exact transferApp_eq_ok.mpr ⟨_, ⟨found, owner⟩, by simp [ne, fresh]⟩
    case addCollaborator found owner new fresh =>
      exact addCollaborator_eq_ok.mpr ⟨_, ⟨found, owner⟩, new, fresh, rfl⟩
    case removeCollaborator found owner old =>
      exact removeCollaborator_eq_ok.mpr ⟨_, found, owner, old, rfl⟩
    case addDeployment found owner fresh =>
      exact ⟨_, addDeployment_eq_ok.mpr ⟨_, ⟨found, owner⟩, fresh, rfl, rfl⟩⟩
    case renameDeployment found owner target fresh =>
      exact renameDeployment_eq_ok.mpr ⟨_, ⟨found, owner⟩, ⟨_, target⟩, fresh, rfl⟩
    case removeDeployment found owner target =>
      exact ⟨_, removeDeployment_eq_ok.mpr ⟨_, ⟨found, owner⟩, target, rfl⟩⟩

end AirRelease.Registry
