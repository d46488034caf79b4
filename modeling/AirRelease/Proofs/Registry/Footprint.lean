import AirRelease.Proofs.Registry.Step

namespace AirRelease.Registry

namespace Call

def account : Call → Email
  | addApp account _ _ _ | renameApp account _ _ | removeApp account _ | transferApp account _ _
  | addCollaborator account _ _ | removeCollaborator account _ _ | addDeployment account _ _ _
  | renameDeployment account _ _ _ | removeDeployment account _ _ => account

-- The name of the app that a call is about, unless the call adds it.
def subject? : Call → Option String
  | addApp _ _ _ _ => none
  | renameApp _ name _ | removeApp _ name | transferApp _ name _ | addCollaborator _ name _
  | removeCollaborator _ name _ | addDeployment _ name _ _ | renameDeployment _ name _ _
  | removeDeployment _ name _ => some name

def RemovesApp : Call → Prop
  | removeApp _ _ => True
  | _ => False

-- Whether a call leaves all deployments where they are, and with their keys.
def KeepsKeys : Call → Prop
  | addApp _ _ _ _ | removeApp _ _ | addDeployment _ _ _ _ | removeDeployment _ _ _ => False
  | _ => True

-- A collaborator that takes itself off an app.
def Leaves (c : Call) (app : App) : Prop :=
  (∃ name, c = removeCollaborator c.account name c.account) ∧
    app.collaborators.find c.account = some .collaborator

end Call

-- The keys of all deployments, app by app.
def keysByApp (r : Registry) : List (List AccessKey) :=
  r.apps.map fun app => app.deployments.map (·.key)

-- The app is the first one that the account finds under the name. It has become `left`, which is
-- nothing if it has been removed. All others are as they were.
structure Touches (r : Registry) (account : Email) (name : String) (app : App) (left : Option App)
    (r' : Registry) : Prop where
  named : app.name.text = name
  seen : app.collaborators.Has account
  split : ∃ before after, r.apps = before ++ app :: after ∧
    r'.apps = before ++ left.toList ++ after ∧
    ∀ b ∈ before, ¬(b.name.text = name ∧ b.collaborators.Has account)

inductive Footprint (r r' : Registry) : Call → Prop
  | appends (app : App) (named : app.name = name)
      (owned : ∀ x, app.collaborators.find x = if x = account then some .owner else none)
      (apps : r'.apps = r.apps ++ [app]) :
    Footprint r r' (.addApp account name names keyOf)
  | touches {c : Call} (subject : c.subject? = some name) (app : App) (left : Option App)
      (touches : r.Touches c.account name app left r') (removed : left = none ↔ c.RemovesApp)
      (permitted : app.IsOwner c.account ∨ c.Leaves app)
      (keys : c.KeepsKeys → r'.keysByApp = r.keysByApp) :
    Footprint r r' c

variable {r r' : Registry} {account : Email} {name : String} {app : App} {c : Call}

theorem matching_eq_false {b : App} :
    matching account name b = false ↔ ¬(b.name.text = name ∧ b.collaborators.Has account) := by
  rw [← Bool.not_eq_true, matching, Bool.and_eq_true, decide_eq_true_eq, decide_eq_true_eq]

theorem touches_change (found : r.app account name = .ok app) (f : App → App) :
    r.Touches account name app (some (f app)) (r.change account name f) := by
  have ⟨before, after, split, changed, first⟩ := changeFirst_split (app_eq_ok.mp found) f
  refine ⟨name_of_app found, has_of_app found, before, after, split, ?_, ?_⟩
  · simpa [Registry.change] using changed
  · exact fun b mem => matching_eq_false.mp (first b mem)

theorem touches_erase (found : r.app account name = .ok app) :
    r.Touches account name app none ⟨r.apps.eraseP (matching account name)⟩ := by
  have ⟨is, before, after, split, first⟩ :=
    List.find?_eq_some_iff_append.mp (app_eq_ok.mp found)
  have first : ∀ b ∈ before, matching account name b = false := by simpa using first
  refine ⟨name_of_app found, has_of_app found, before, after, split, ?_, ?_⟩
  · have skip : ∀ b ∈ before, ¬matching account name b = true := by simpa using first
    simp [split, List.eraseP_append_right _ skip, List.eraseP_cons_of_pos is]
  · exact fun b mem => matching_eq_false.mp (first b mem)

-- A transfer to oneself leaves even the one app as it is.
theorem touches_self (found : r.app account name = .ok app) :
    r.Touches account name app (some app) r := by
  have touches := touches_change found id
  obtain ⟨before, after, split, _, first⟩ := touches.split
  exact ⟨touches.named, touches.seen, before, after, split, by simp [split], first⟩

theorem keysByApp_change {f : App → App}
    (same : ∀ app, (f app).deployments.map (·.key) = app.deployments.map (·.key)) :
    (r.change account name f).keysByApp = r.keysByApp :=
  map_changeFirst (fun app _ => same app) r.apps

theorem Step.footprint (s : Step r c r') : Footprint r r' c := by
  cases s
  case addApp app _ alone _ =>
    refine .appends app rfl (fun x => ?_) rfl
    simp only [alone, Collaborators.find_insert, Collaborators.find_empty]
  case removeApp found owner =>
    exact .touches rfl _ none (touches_erase found) (iff_of_true rfl trivial) (.inl owner) nofun
  case transferToSelf found owner =>
    exact .touches rfl _ _ (touches_self found) (iff_of_false nofun id) (.inl owner) fun _ => rfl
  case removeCollaborator account name email app found owner old =>
    refine .touches rfl _ _ (touches_change found _) (iff_of_false nofun id) ?_ fun _ =>
      keysByApp_change fun _ => rfl
    by_cases self : email = account
    case pos =>
      subst self
      exact .inr ⟨⟨name, rfl⟩, old⟩
    case neg => exact .inl (owner self)
  case addDeployment found owner _ =>
    exact .touches rfl _ _ (touches_change found _) (iff_of_false nofun id) (.inl owner) nofun
  case removeDeployment found owner _ =>
    exact .touches rfl _ _ (touches_change found _) (iff_of_false nofun id) (.inl owner) nofun
  case renameDeployment found owner _ _ =>
    refine .touches rfl _ _ (touches_change found _) (iff_of_false nofun id) (.inl owner) fun _ =>
      keysByApp_change fun app => ?_
    apply map_changeFirst
    exact fun _ _ => rfl
  case renameApp found owner _ | transferApp found owner _ _ | addCollaborator found owner _ _ =>
    exact .touches rfl _ _ (touches_change found _) (iff_of_false nofun id) (.inl owner) fun _ =>
      keysByApp_change fun _ => rfl

theorem outcome_footprint (r : Registry) (c : Call) :
    match r.outcome c with
    | .error _ => r.after c = r
    | .ok r' => r.after c = r' ∧ Footprint r r' c := by
  cases h : r.outcome c with
  | error e => simp only [Registry.after, h]
  | ok r' => exact ⟨by simp only [Registry.after, h], (outcome_eq_ok.mp h).footprint⟩

end AirRelease.Registry
