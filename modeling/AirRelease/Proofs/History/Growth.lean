import AirRelease.Proofs.History.Labels

namespace AirRelease

-- What every call leaves alone in a package. Patches may change the rest.
structure Package.Kept (p q : Package) : Prop where
  label : q.label = p.label
  hash : q.hash = p.hash
  size : q.size = p.size
  uploadTime : q.uploadTime = p.uploadTime
  method : q.method = p.method
  rollout : p.rollout.percent ≤ q.rollout.percent

namespace Package.Kept

variable {p q s : Package}

theorem refl (p : Package) : p.Kept p :=
  ⟨rfl, rfl, rfl, rfl, rfl, Nat.le_refl _⟩

theorem trans (h₁ : p.Kept q) (h₂ : q.Kept s) : p.Kept s where
  label := h₂.label.trans h₁.label
  hash := h₂.hash.trans h₁.hash
  size := h₂.size.trans h₁.size
  uploadTime := h₂.uploadTime.trans h₁.uploadTime
  method := h₂.method.trans h₁.method
  rollout := Nat.le_trans h₁.rollout h₂.rollout

end Package.Kept

theorem Rollout.raised_eq_ok {p : Package} {value : Option Int} {r : Option Rollout}
    (h : raised p value = .ok r) :
    r = none ∨ ∃ s, r = some s ∧ ¬p.rollout.IsFull ∧ p.rollout.percent < s.percent := by
  cases value with
  | none => exact .inl (Except.ok.inj h).symm
  | some value =>
    simp only [raised, Option.mapM_some, fmap_eq_map, map_eq_ok, mapError_eq_ok] at h
    obtain ⟨s, ok, rfl⟩ := h
    have lt := lt_of_forPatch ok
    refine .inr ⟨s, rfl, fun full => ?_, lt⟩
    have := s.le
    unfold IsFull at full
    omega

theorem PatchOptions.kept_applied {p : Package} {r : Option Rollout} (o : PatchOptions)
    (v : Option VersionRange) (raised : Rollout.raised p o.rollout = .ok r) :
    p.Kept (o.applied p v r) := by
  refine ⟨rfl, rfl, rfl, rfl, rfl, ?_⟩
  rcases Rollout.raised_eq_ok raised with rfl | ⟨s, rfl, _, lt⟩
  · exact Nat.le_refl _
  · exact Nat.le_of_lt lt

namespace History

variable {h h' h'' : History} {p q : Package} {c : Call}

theorem mem_of_target {target : Option Label} (eq : target.elim h.latest h.find = some p) :
    p ∈ h.packages := by
  cases target with
  | none => exact List.mem_of_getLast? eq
  | some l => exact List.mem_of_find?_eq_some eq

-- Labels that do not repeat lead back to the package that is meant to be replaced.
theorem replace_split (nodup : h.labels.Nodup) (mem : p ∈ h.packages) (same : q.label = p.label)
    (ok : h.replace p.label q = .ok h') :
    ∃ before after, h.packages = before ++ p :: after ∧ h'.packages = before ++ q :: after := by
  have ⟨i, at_i⟩ := List.getElem?_of_mem mem
  have found := find_of_getElem? nodup at_i
  have ⟨before, after, split, changed, _⟩ :=
    changeFirst_split found fun _ => { q with label := p.label }
  refine ⟨before, after, split, ?_⟩
  rw [(replace_eq_ok.mp ok).2, changed, ← same]

theorem patch_split {o : PatchOptions} {v : Option VersionRange} {r : Option Rollout}
    (wl : h.WellLabelled) (target : o.label.elim h.latest h.find = some p)
    (replaced : h.replace p.label (o.applied p v r) = .ok h') :
    ∃ before after, h.packages = before ++ p :: after ∧
      h'.packages = before ++ o.applied p v r :: after :=
  replace_split wl.nodup (mem_of_target target) rfl replaced

def Grows (h h' : History) : Prop :=
  ∀ (i : Nat) (p : Package), h.packages[i]? = some p → ∃ q, h'.packages[i]? = some q ∧ p.Kept q

namespace Grows

theorem refl (h : History) : h.Grows h :=
  fun _ p at_i => ⟨p, at_i, .refl p⟩

theorem trans (g₁ : h.Grows h') (g₂ : h'.Grows h'') : h.Grows h'' := by
  intro i p at_i
  have ⟨q, at_i, kept₁⟩ := g₁ i p at_i
  have ⟨s, at_i, kept₂⟩ := g₂ i q at_i
  exact ⟨s, at_i, kept₁.trans kept₂⟩

theorem of_appends (appends : h.Appends p h') : h.Grows h' := by
  intro i q at_i
  have lt := (List.getElem?_eq_some_iff.mp at_i).1
  refine ⟨q, ?_, .refl q⟩
  rw [appends.packages, List.getElem?_append_left lt, at_i]

theorem of_split {before after : List Package} (split : h.packages = before ++ p :: after)
    (split' : h'.packages = before ++ q :: after) (kept : p.Kept q) : h.Grows h' := by
  intro i s at_i
  rw [split, List.getElem?_append] at at_i
  rw [split', List.getElem?_append]
  split at at_i
  case isTrue lt => exact ⟨s, by rw [if_pos lt, at_i], .refl s⟩
  case isFalse ge =>
    rw [if_neg ge]
    generalize i - before.length = k at at_i ⊢
    cases k with
    | zero => exact ⟨q, rfl, Option.some.inj at_i ▸ kept⟩
    | succ j => exact ⟨s, at_i, .refl s⟩

end Grows

theorem Step.grows (wl : h.WellLabelled) (s : Step h c h') (ne : c ≠ .clear) : h.Grows h' := by
  cases s
  case release offered | promote offered =>
    cases offered
    case skipped => exact .refl h
    case released appends => exact .of_appends appends
  case patch target _ rollout replaced =>
    have ⟨_, _, split, split'⟩ := patch_split wl target replaced
    exact .of_split split split' (PatchOptions.kept_applied _ _ rollout)
  case rollback appends => exact .of_appends appends
  case clear => exact absurd rfl ne

theorem after_grows (wl : h.WellLabelled) (ne : c ≠ .clear) : h.Grows (h.after c) := by
  cases h.after_eq_or_step c
  case inl same => exact same.symm ▸ .refl h
  case inr s => exact s.grows wl ne

theorem Step.length_eq_or_concat (s : Step h c h') (ne : c ≠ .clear) :
    h'.length = h.length ∨ ∃ p, h'.packages = h.packages ++ [p] := by
  cases s
  case release offered | promote offered =>
    cases offered
    case skipped => exact .inl rfl
    case released appends => exact .inr ⟨_, appends.packages⟩
  case patch replaced => exact .inl (length_replace replaced)
  case rollback appends => exact .inr ⟨_, appends.packages⟩
  case clear => exact absurd rfl ne

theorem run_grows (wl : h.WellLabelled) {calls : List Call} (uncleared : .clear ∉ calls) :
    h.Grows (h.run calls) ∧ ∀ done c, done ++ [c] <+: calls →
      ((h.run done).after c).length = (h.run done).length ∨
      ∃ p, ((h.run done).after c).packages = (h.run done).packages ++ [p] := by
  have ne {c} (mem : c ∈ calls) : c ≠ .clear :=
    fun eq => uncleared (eq ▸ mem)
  constructor
  case left =>
    refine (List.foldlRecOn calls after (motive := fun h' => h'.WellLabelled ∧ h.Grows h')
      ⟨wl, .refl h⟩ fun h' ⟨wl, grows⟩ c mem => ?_).2
    exact ⟨after_wellLabelled wl c, grows.trans (after_grows wl (ne mem))⟩
  case right =>
    intro done c pre
    cases (h.run done).after_eq_or_step c
    case inl same => exact .inl (congrArg length same)
    case inr s => exact s.length_eq_or_concat (ne (pre.subset (by simp)))

theorem run_grows_loaded :
    let calls : List Call := [
      .patch ⟨"Staging", by decide⟩ { description := some "fixed" },
      .rollback ⟨"Staging", by decide⟩ none]
    loaded.WellLabelled ∧ .clear ∉ calls ∧ loaded.Grows (loaded.run calls) ∧
      ∀ done c, done ++ [c] <+: calls →
        ((loaded.run done).after c).length = (loaded.run done).length ∨
        ∃ p, ((loaded.run done).after c).packages = (loaded.run done).packages ++ [p] := by
  intro calls
  have uncleared : .clear ∉ calls := by simp [calls]
  exact ⟨wellLabelled_loaded, uncleared, run_grows wellLabelled_loaded uncleared⟩

end History
end AirRelease
