import AirRelease.Proofs.History.Growth
import AirRelease.Proofs.Registry.Shape
import AirRelease.Proofs.Store.Format

namespace AirRelease

theorem forall_mem_changeFirst {p : α → Bool} {f : α → α} {P : α → Prop} {as : List α}
    (all : ∀ a ∈ as, P a) (new : ∀ a, P a → P (f a)) : ∀ a ∈ changeFirst p f as, P a := by
  cases found : as.find? p with
  | none => rwa [changeFirst_of_find?_eq_none found]
  | some a =>
    have ⟨before, after, split, changed, _⟩ := changeFirst_split found f
    rw [changed]
    rw [split] at all
    simp only [List.forall_mem_append, List.forall_mem_cons] at all ⊢
    exact ⟨all.1, new a all.2.1, all.2.2⟩

-- The app can be stored, and each of its deployments has a key that is good for something.
structure App.Sound (Good : AccessKey → Prop) (app : App) : Prop where
  collaborators : app.collaborators.Storable
  keys : ∀ d ∈ app.deployments, Good d.key

section Collaborators

variable {cs : Collaborators} {e : Email}

theorem Collaborators.storable_empty : empty.Storable :=
  fun e has => absurd has (has_empty e)

theorem Collaborators.Storable.insert (storable : cs.Storable) (canonical : e.Canonical) (p : Permission) :
    (cs.insert e p).Storable := by
  intro x has
  rcases has_insert.mp has with rfl | has
  · exact canonical
  · exact storable x has

theorem Collaborators.Storable.erase (storable : cs.Storable) (e : Email) : (cs.erase e).Storable :=
  fun x has => storable x (has_erase.mp has).2

end Collaborators

namespace Registry

def Sound (Good : AccessKey → Prop) (r : Registry) : Prop :=
  ∀ app ∈ r.apps, app.Sound Good

-- The addresses that a call may enter.
def Call.emails : Call → List Email
  | .addApp account _ _ _ => [account]
  | .transferApp account _ newOwner => [account, newOwner]
  | .addCollaborator _ _ email => [email]
  | _ => []

variable {Good : AccessKey → Prop} {r r' : Registry} {c : Call}

theorem Sound.storable (sound : r.Sound Good) : r.Storable :=
  fun app mem => (sound app mem).collaborators

theorem Step.sound (s : Step r c r') (sound : r.Sound Good) (emails : ∀ e ∈ c.emails, e.Canonical)
    (keys : ∀ k ∈ c.keys, Good k) : r'.Sound Good := by
  cases s
  case addApp app _ alone listed =>
    refine forall_mem_append sound ⟨?_, fun d mem => ?_⟩
    · rw [alone]
      exact Collaborators.storable_empty.insert (emails _ (by simp [Call.emails])) _
    · rw [listed, List.mem_mapIdx] at mem
      obtain ⟨i, lt, rfl⟩ := mem
      exact keys _ (List.mem_map.mpr ⟨i, List.mem_range.mpr lt, rfl⟩)
  case renameApp found _ _ => exact forall_mem_change sound found fun same => ⟨same.collaborators, same.keys⟩
  case removeApp => exact fun app mem => sound app (List.mem_of_mem_eraseP mem)
  case transferToSelf => exact sound
  case transferApp found _ _ _ =>
    have previous := emails _ List.mem_cons_self
    have next := emails _ (List.mem_cons_of_mem _ List.mem_cons_self)
    exact forall_mem_change sound found fun same =>
      ⟨(same.collaborators.insert previous _).insert next _, same.keys⟩
  case addCollaborator found _ _ _ =>
    have new := emails _ List.mem_cons_self
    exact forall_mem_change sound found fun same => ⟨same.collaborators.insert new _, same.keys⟩
  case removeCollaborator found _ _ =>
    exact forall_mem_change sound found fun same => ⟨same.collaborators.erase _, same.keys⟩
  case addDeployment found _ _ =>
    refine forall_mem_change sound found fun same => ⟨same.collaborators, fun d mem => ?_⟩
    rcases List.mem_append.mp mem with mem | mem
    · exact same.keys d mem
    · exact List.mem_singleton.mp mem ▸ keys _ List.mem_cons_self
  case renameDeployment found _ _ _ =>
    exact forall_mem_change sound found fun same =>
      ⟨same.collaborators, forall_mem_changeFirst same.keys fun _ good => good⟩
  case removeDeployment found _ _ =>
    refine forall_mem_change sound found fun same => ⟨same.collaborators, fun d mem => ?_⟩
    exact same.keys d (List.mem_of_mem_eraseP mem)

end Registry

namespace History

-- What a call brings with it can be stored.
def Call.Brings : Call → Prop
  | .release _ size uploadTime _ _ => size < wordBound ∧ uploadTime < wordBound
  | .promote _ sourceHistory _ uploadTime => sourceHistory.Storable ∧ uploadTime < wordBound
  | _ => True

variable {h h' : History} {p q : Package} {c : Candidate}

theorem mem_of_source {target : Option Label} (eq : target.elim h.previous h.find = some p) :
    p ∈ h.packages := by
  cases target with
  | none => exact (List.dropLast_sublist _).subset (List.mem_of_getLast? eq)
  | some l => exact List.mem_of_find?_eq_some eq

theorem Storable.append (storable : h.Storable) (appends : h.Appends p h') (new : p.Storable) :
    h'.Storable := by
  rw [Storable, appends.packages]
  exact List.forall_mem_append.mpr ⟨storable, List.forall_mem_singleton.mpr new⟩

theorem Storable.replace (storable : h.Storable) {l : Label} (replaced : h.replace l p = .ok h')
    (new : p.Storable) : h'.Storable := by
  rw [(replace_eq_ok.mp replaced).2]
  exact forall_mem_changeFirst storable fun _ _ => ⟨new.size, new.uploadTime⟩

theorem Offered.storable {rollout : Option Int} {allowDuplicate : Bool} {x : Outcome}
    (offered : h.Offered c rollout allowDuplicate x h') (storable : h.Storable)
    (size : c.size < wordBound) (uploadTime : c.uploadTime < wordBound) : h'.Storable := by
  cases offered
  case skipped => exact storable
  case released copy appends =>
    refine storable.append appends ⟨?_, ?_⟩
    · rwa [copy]
    · rwa [copy]

theorem Step.storable {c : Call} (s : Step h c h') (storable : h.Storable) (brings : c.Brings) :
    h'.Storable := by
  cases s
  case release offered => exact offered.storable storable brings.1 brings.2
  case patch target _ _ replaced =>
    have old := storable _ (mem_of_target target)
    exact storable.replace replaced ⟨old.size, old.uploadTime⟩
  case promote copied _ offered =>
    have mem := List.mem_reverse.mp (List.mem_of_find?_eq_some copied)
    exact offered.storable storable (brings.1 _ mem).size brings.2
  case rollback _ copied _ copy appends =>
    have old := storable _ (mem_of_source copied)
    refine storable.append appends ⟨?_, ?_⟩
    · rw [copy]
      exact old.size
    · rw [copy]
      exact old.uploadTime
  case clear => exact nofun

end History
end AirRelease
