import AirRelease.Proofs.Registry.Step
import AirRelease.Proofs.Run

namespace AirRelease

-- No account sees both apps, or else their names differ.
def App.Apart (a b : App) : Prop :=
  ∀ x, a.collaborators.Has x → b.collaborators.Has x → a.name ≠ b.name

theorem App.Apart.symm {a b : App} (h : a.Apart b) : b.Apart a :=
  fun x hb ha eq => h x ha hb eq.symm

theorem pairwise_apart_middle {before after : List App} {a : App} :
    (before ++ a :: after).Pairwise App.Apart ↔
      (∀ b ∈ before ++ after, a.Apart b) ∧ (before ++ after).Pairwise App.Apart :=
  (List.pairwise_middle App.Apart.symm).trans List.pairwise_cons

namespace Registry

variable {r : Registry} {account : Email} {name old : String} {new : Name} {app : App}
  {f : App → App}

def NamesUnique (r : Registry) : Prop :=
  ∀ account, ((r.visible account).map (·.name)).Nodup

theorem namesUnique_iff_pairwise : r.NamesUnique ↔ r.apps.Pairwise App.Apart := by
  simp only [NamesUnique, visible, List.Nodup, List.pairwise_map, List.pairwise_filter,
    decide_eq_true_eq]
  simp only [List.pairwise_iff_forall_sublist]
  constructor
  · exact fun h _ _ sub x => h x sub
  · exact fun h x _ _ sub => h sub x

theorem namesUnique_empty : empty.NamesUnique :=
  namesUnique_iff_pairwise.mpr .nil

theorem NamesUnique.append (u : r.NamesUnique) (h : ∀ b ∈ r.apps, app.Apart b) :
    NamesUnique ⟨r.apps ++ [app]⟩ := by
  rw [namesUnique_iff_pairwise] at u ⊢
  refine List.pairwise_append.mpr ⟨u, List.pairwise_singleton .., ?_⟩
  intro b mem _ eq
  exact List.mem_singleton.mp eq ▸ (h b mem).symm

theorem NamesUnique.erase (u : r.NamesUnique) (p : App → Bool) : NamesUnique ⟨r.apps.eraseP p⟩ := by
  rw [namesUnique_iff_pairwise] at u ⊢
  exact u.sublist List.eraseP_sublist

-- Only the pairs with the changed app are in question after a change.
theorem NamesUnique.change_iff (u : r.NamesUnique) (found : r.app account name = .ok app)
    (f : App → App) :
    ∃ others, r.apps.Perm (app :: others) ∧ (∀ b ∈ others, app.Apart b) ∧
      ((r.change account name f).NamesUnique ↔ ∀ b ∈ others, (f app).Apart b) := by
  have ⟨before, after, split, changed, _⟩ := changeFirst_split (app_eq_ok.mp found) f
  rw [namesUnique_iff_pairwise, split] at u
  have ⟨apart, rest⟩ := pairwise_apart_middle.mp u
  refine ⟨before ++ after, split ▸ List.perm_middle, apart, ?_⟩
  simp only [namesUnique_iff_pairwise, Registry.change, changed, pairwise_apart_middle,
    and_iff_left rest]

-- An account that newly sees an app must not see another app of its name.
theorem NamesUnique.change (u : r.NamesUnique) (found : r.app account name = .ok app)
    (same : (f app).name = app.name)
    (gain : ∀ x, (f app).collaborators.Has x → app.collaborators.Has x ∨ ¬r.Sees x app.name) :
    (r.change account name f).NamesUnique := by
  have ⟨others, perm, apart, unique⟩ := u.change_iff found f
  refine unique.mpr fun b mem x hx hb => same ▸ ?_
  cases gain x hx
  case inl has => exact apart b mem x has hb
  case inr blind =>
    have mem := perm.mem_iff.mpr (List.mem_cons_of_mem _ mem)
    exact fun eq => blind (sees_iff.mpr ⟨b, mem, hb, eq.symm⟩)

theorem NamesUnique.rename_iff (u : r.NamesUnique) (found : r.app account old = .ok app)
    (ne : new.text ≠ old) :
    (r.change account old ({ · with name := new })).NamesUnique ↔
      ∀ x, app.collaborators.Has x → ¬r.Sees x new := by
  have ⟨others, perm, _, unique⟩ := u.change_iff found ({ · with name := new })
  rw [unique]
  constructor
  case mp =>
    intro apart x has sees
    have ⟨b, mem, hb, eq⟩ := sees_iff.mp sees
    cases List.mem_cons.mp (perm.mem_iff.mp mem)
    case inl self => exact ne (eq ▸ self ▸ name_of_app found)
    case inr mem => exact apart b mem x has hb eq.symm
  case mpr =>
    intro blind b mem x has hb eq
    have mem := perm.mem_iff.mpr (List.mem_cons_of_mem _ mem)
    exact blind x has (sees_iff.mpr ⟨b, mem, hb, eq.symm⟩)

-- An app is renamed to a name that the acting account does not see, but somebody else on the app
-- does.
def Clashes (r : Registry) : Call → Prop
  | .renameApp account old new =>
    ∃ app, r.ownApp account old = .ok app ∧ new.text ≠ old ∧ ¬r.Sees account new ∧
      ∃ x, app.collaborators.Has x ∧ r.Sees x new
  | _ => False

theorem NamesUnique.step_iff {c : Call} {r' : Registry} (u : r.NamesUnique) (s : Step r c r') :
    r'.NamesUnique ↔ ¬r.Clashes c := by
  cases s
  case renameApp old new app found owner fresh =>
    by_cases same : new.text = old
    case pos =>
      have eq : new = app.name := Name.ext (same.trans (name_of_app found).symm)
      refine iff_of_true (u.change found eq fun _ => .inl) ?_
      rintro ⟨_, _, ne, _⟩
      exact ne same
    case neg =>
      rw [u.rename_iff found same]
      simp [Clashes, ownApp_eq_ok, found, owner, same, fresh same]
  all_goals refine iff_of_true ?_ id
  case addApp fresh alone _ =>
    refine u.append fun b mem x hx hb eq => ?_
    rw [alone, Collaborators.has_insert] at hx
    have self := hx.resolve_right (Collaborators.has_empty x)
    exact fresh (sees_iff.mpr ⟨b, mem, self ▸ hb, eq.symm⟩)
  case removeApp => exact u.erase _
  case transferToSelf => exact u
  case transferApp found owner _ fresh =>
    refine u.change found rfl fun x hx => ?_
    simp only [Collaborators.has_insert] at hx
    rcases hx with rfl | rfl | has
    · exact fresh
    · exact .inl (has_of_app found)
    · exact .inl has
  case addCollaborator found _ _ fresh =>
    refine u.change found rfl fun x hx => ?_
    rcases Collaborators.has_insert.mp hx with rfl | has
    · exact .inr fresh
    · exact .inl has
  case removeCollaborator found _ _ =>
    exact u.change found rfl fun x hx => .inl (Collaborators.has_erase.mp hx).2
  case addDeployment found _ _ | renameDeployment found _ _ _ | removeDeployment found _ _ =>
    exact u.change found rfl fun _ => .inl

theorem outcome_of_clashes {c : Call} (clash : r.Clashes c) : ∃ r', r.outcome c = .ok r' := by
  cases c
  case renameApp =>
    have ⟨_, own, _, fresh, _⟩ := clash
    have ⟨found, owner⟩ := ownApp_eq_ok.mp own
    exact ⟨_, outcome_eq_ok.mpr (.renameApp found owner fun _ => fresh)⟩
  all_goals cases clash

theorem NamesUnique.after_iff (u : r.NamesUnique) (c : Call) :
    (r.after c).NamesUnique ↔ ¬r.Clashes c := by
  unfold Registry.after
  split
  case h_1 ok => exact u.step_iff (outcome_eq_ok.mp ok)
  case h_2 refused =>
    refine iff_of_true u fun clash => ?_
    have ⟨_, ok⟩ := outcome_of_clashes clash
    simp [ok] at refused

theorem namesUnique_throughout_iff (calls : List Call) :
    (∀ done, done <+: calls → (empty.run done).NamesUnique) ↔
      ∀ done c, done ++ [c] <+: calls → ¬(empty.run done).Clashes c :=
  Run.throughout_iff namesUnique_empty (fun _ c u => u.after_iff c) calls

-- Ann shares her app X with Bob, who has an app Y, and renames X to Y. Bob then sees two apps Y.
theorem not_namesUnique_run : ¬∀ calls, (empty.run calls).NamesUnique := by
  intro unique
  let ann : Email := ⟨"ann@example.com"⟩
  let bob : Email := ⟨"bob@example.com"⟩
  let x : Name := ⟨"X", by decide⟩
  let y : Name := ⟨"Y", by decide⟩
  let key (_ : Nat) : AccessKey := ⟨""⟩
  let calls : List Call := [
    .addApp ann x [] key, .addApp bob y [] key, .addCollaborator ann "X" bob, .renameApp ann "X" y]
  have seen : ((empty.run calls).visible bob).map (·.name) = [y, y] := by decide
  simpa [seen] using unique calls bob

end Registry
end AirRelease
