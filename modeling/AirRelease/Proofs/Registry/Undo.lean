import AirRelease.Proofs.Registry.Step

namespace AirRelease

section First

variable {α : Type} {p : α → Bool} {f g : α → α} {as : List α} {a : α}

theorem find?_concat (none : as.find? p = none) (is : p a) : (as ++ [a]).find? p = some a := by
  rw [List.find?_append, none, Option.none_or, List.find?_cons_of_pos is]

theorem eraseP_concat (none : as.find? p = none) (is : p a) : (as ++ [a]).eraseP p = as := by
  have others : ∀ b ∈ as, ¬p b := List.find?_eq_none.mp none
  rw [List.eraseP_append_right _ others, List.eraseP_cons_of_pos is, List.append_nil]

-- As long as the change keeps the property, the first element that has it is in the same place.
theorem find?_changeFirst (found : as.find? p = some a) (still : p (f a)) :
    (changeFirst p f as).find? p = some (f a) := by
  obtain ⟨before, after, _, changed, others⟩ := changeFirst_split found f
  have none : before.find? p = none := List.find?_eq_none.mpr fun b mem => by simp [others b mem]
  rw [changed, List.find?_append, none, Option.none_or, List.find?_cons_of_pos still]

theorem changeFirst_changeFirst (found : as.find? p = some a) (still : p (f a)) (back : g (f a) = a) :
    changeFirst p g (changeFirst p f as) = as := by
  induction as with
  | nil => rfl
  | cons b rest ih =>
    cases is : p b
    case true =>
      rw [List.find?_cons_of_pos is, Option.some.injEq] at found
      subst found
      simp [changeFirst, is, still, back]
    case false =>
      rw [List.find?_cons_of_neg (by simp [is])] at found
      simp [changeFirst, is, ih found]

end First

namespace Collaborators

variable {cs : Collaborators} {e : Email}

theorem filter_insertEntry {es : List (Email × Permission)} (new : ∀ x ∈ es, x.1 ≠ e) (p : Permission) :
    (insertEntry e p es).filter (·.1 ≠ e) = es := by
  have all : es.filter (·.1 ≠ e) = es := List.filter_eq_self.mpr fun x mem => decide_eq_true (new x mem)
  induction es with
  | nil => simp [insertEntry]
  | cons x rest ih =>
    obtain ⟨ne, others⟩ := List.forall_mem_cons.mp new
    have kept := List.filter_eq_self.mpr fun y mem => decide_eq_true (others y mem)
    simp only [insertEntry]
    split
    case isTrue => rw [List.filter_cons_of_neg (by simp), all]
    case isFalse =>
      rw [if_neg (Ne.symm ne), List.filter_cons_of_pos (by simpa using ne), ih others kept]

theorem erase_insert (new : ¬cs.Has e) (p : Permission) : (cs.insert e p).erase e = cs := by
  have absent : ∀ x ∈ cs.entries, x.1 ≠ e := by
    simpa only [Has, find, Option.isSome_map, List.find?_isSome, decide_eq_true_eq, not_exists, not_and] using new
  exact Collaborators.ext (filter_insertEntry absent p)

end Collaborators

-- An account that has found the one app by its name now finds the other.
structure App.StaysFor (account : Email) (app app' : App) : Prop where
  name : app'.name = app.name
  seen : app.collaborators.Has account → app'.collaborators.Has account

namespace Registry

variable {r r' : Registry} {account email : Email} {name : String} {new : Name} {app : App} {d : Deployment}
  {key : AccessKey} {f g : App → App}

theorem matching_of_stays {app' : App} (found : r.app account name = .ok app)
    (stays : app.StaysFor account app') : matching account name app' := by
  have named : app'.name.text = name := stays.name ▸ name_of_app found
  simp [matching, named, stays.seen (has_of_app found)]

theorem app_change (found : r.app account name = .ok app) (stays : app.StaysFor account (f app)) :
    (r.change account name f).app account name = .ok (f app) :=
  app_eq_ok.mpr (find?_changeFirst (app_eq_ok.mp found) (matching_of_stays found stays))

theorem change_change (found : r.app account name = .ok app) (stays : app.StaysFor account (f app))
    (back : g (f app) = app) : (r.change account name f).change account name g = r :=
  Registry.ext (changeFirst_changeFirst (app_eq_ok.mp found) (matching_of_stays found stays) back)

-- The account does not see the name, so that the search for it passes all older apps.
theorem removeApp_of_addApp {names : List Name} {keyOf : Nat → AccessKey}
    (added : r.addApp account new names keyOf = .ok (app, r')) :
    r'.removeApp account new.text = .ok (app, r) := by
  obtain ⟨fresh, made, rfl⟩ := addApp_eq_ok.mp added
  have owner : app.IsOwner account := by
    rw [made]
    exact Collaborators.find_insert_self ..
  have older : r.apps.find? (matching account new.text) = none := by
    refine List.find?_eq_none.mpr fun b mem is => fresh (sees_iff.mpr ⟨b, mem, ?_⟩)
    simp only [matching, Bool.and_eq_true, decide_eq_true_eq] at is
    exact ⟨is.2, Name.ext is.1⟩
  have named : app.name = new := made ▸ rfl
  have is : matching account new.text app := by
    have has : app.collaborators.Has account := by
      rw [App.IsOwner] at owner
      simp [Collaborators.Has, owner]
    simp [matching, named, has]
  refine removeApp_eq_ok.mpr ⟨⟨app_eq_ok.mpr (find?_concat older is), owner⟩, ?_⟩
  exact Registry.ext (eraseP_concat older is)

theorem removeCollaborator_of_addCollaborator (added : r.addCollaborator account name email = .ok r') :
    r'.removeCollaborator account name email = .ok r := by
  obtain ⟨app, ⟨found, owner⟩, absent, _, rfl⟩ := addCollaborator_eq_ok.mp added
  have other : account ≠ email := fun same => absent (same ▸ has_of_app found)
  have stays : app.StaysFor account
      { app with collaborators := app.collaborators.insert email .collaborator } :=
    ⟨rfl, fun has => Collaborators.has_insert.mpr (.inr has)⟩
  refine removeCollaborator_eq_ok.mpr ⟨_, app_change found stays, fun _ => ?_, ?_, ?_⟩
  · exact (Collaborators.find_insert_of_ne _ other _).trans owner
  · exact Collaborators.find_insert_self ..
  · exact change_change found stays (congrArg (App.mk _ · _) (Collaborators.erase_insert absent _))

theorem removeDeployment_of_addDeployment (added : r.addDeployment account name new key = .ok (d, r')) :
    r'.removeDeployment account name new.text = .ok (d, r) := by
  obtain ⟨app, ⟨found, owner⟩, fresh, rfl, rfl⟩ := addDeployment_eq_ok.mp added
  have stays : app.StaysFor account { app with deployments := app.deployments ++ [⟨new, key⟩] } :=
    ⟨rfl, id⟩
  have older : app.deployments.find? (·.name.text = new.text) = none := by
    refine List.find?_eq_none.mpr fun d mem is => fresh (List.any_eq_true.mpr ⟨d, mem, ?_⟩)
    exact decide_eq_true (Name.ext (of_decide_eq_true is))
  refine removeDeployment_eq_ok.mpr ⟨_, ⟨app_change found stays, owner⟩, ?_, ?_⟩
  · exact deployment_eq_ok.mpr (find?_concat older (by simp))
  · exact change_change found stays (congrArg (App.mk _ _) (eraseP_concat older (by simp)))

theorem removal_undoes_addition (r : Registry) (account : Email) :
    (∀ name names keyOf app r', r.addApp account name names keyOf = .ok (app, r') →
      r'.removeApp account name.text = .ok (app, r)) ∧
    (∀ appName email r', r.addCollaborator account appName email = .ok r' →
      r'.removeCollaborator account appName email = .ok r) ∧
    ∀ appName name key d r', r.addDeployment account appName name key = .ok (d, r') →
      r'.removeDeployment account appName name.text = .ok (d, r) :=
  ⟨fun _ _ _ _ _ => removeApp_of_addApp, fun _ _ _ => removeCollaborator_of_addCollaborator,
    fun _ _ _ _ _ => removeDeployment_of_addDeployment⟩

-- Ann has come to own two apps of one name.
def twins : Registry :=
  let name : Name := ⟨"Shop", by decide⟩
  let owned := Collaborators.empty.insert ⟨"ann@example.com"⟩ .owner
  ⟨[⟨name, owned, [⟨⟨"Blue", by decide⟩, ⟨"k1"⟩⟩]⟩, ⟨name, owned, []⟩]⟩

theorem removal_undoes_addition_twins :
    let ann : Email := ⟨"ann@example.com"⟩
    let bob : Email := ⟨"bob@example.com"⟩
    let stall : Name := ⟨"Stall", by decide⟩
    let green : Name := ⟨"Green", by decide⟩
    (twins.visible ann).map (·.name.text) = ["Shop", "Shop"] ∧
    (∃ app r, twins.addApp ann stall [green] (fun _ => ⟨"k2"⟩) = .ok (app, r) ∧
      r.removeApp ann "Stall" = .ok (app, twins)) ∧
    (∃ r, twins.addCollaborator ann "Shop" bob = .ok r ∧ r.removeCollaborator ann "Shop" bob = .ok twins) ∧
    ∃ d r, twins.addDeployment ann "Shop" green ⟨"k2"⟩ = .ok (d, r) ∧
      r.removeDeployment ann "Shop" "Green" = .ok (d, twins) := by
  intro ann bob stall green
  obtain ⟨apps, collaborators, deployments⟩ := removal_undoes_addition twins ann
  refine ⟨by decide, ⟨_, _, rfl, apps stall _ _ _ _ rfl⟩, ⟨_, rfl, ?_⟩, _, _, rfl, ?_⟩
  · exact collaborators _ _ _ rfl
  · exact deployments _ green _ _ _ rfl

end Registry
end AirRelease
