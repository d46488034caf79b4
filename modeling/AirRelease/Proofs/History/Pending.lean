import AirRelease.Proofs.History.Growth
import AirRelease.Proofs.Run

namespace AirRelease

-- Only the newest package for a version may be pending.
def Package.Yields (p q : Package) : Prop :=
  p.version = q.version → ¬p.Pending

theorem pairwise_iff_split {α : Type} {R : α → α → Prop} {l : List α} :
    l.Pairwise R ↔ ∀ before x after, l = before ++ x :: after → ∀ y ∈ after, R x y := by
  constructor
  case mp =>
    rintro pw before x after rfl
    exact (List.pairwise_cons.mp (List.pairwise_append.mp pw).2.1).1
  case mpr =>
    intro all
    induction l with
    | nil => exact .nil
    | cons x l ih =>
      refine .cons (all [] x l rfl) (ih fun before y after split => ?_)
      exact all (x :: before) y after (congrArg (x :: ·) split)

namespace History

variable {h h' : History} {p q : Package} {c : Call} {before after : List Package}

structure RolloutsInOrder (h : History) : Prop where
  unique : ∀ v, h.packages.countP (fun p => p.version = v ∧ p.Pending) ≤ 1
  latest : ∀ p ∈ h.packages, p.Pending → h.latestFor p.version = some p

theorem latestFor_eq_some_iff (nodup : h.labels.Nodup) (split : h.packages = before ++ p :: after) :
    h.latestFor p.version = some p ↔ ∀ q ∈ after, p.version ≠ q.version := by
  have fresh : p ∉ after := by
    rw [labels, split, List.map_append, List.map_cons] at nodup
    have ne := (List.nodup_cons.mp (List.nodup_append.mp nodup).2.1).1
    exact fun mem => ne (List.mem_map_of_mem mem)
  have found : h.latestFor p.version =
      (after.reverse.find? fun q => q.version = p.version).or (some p) := by
    simp [latestFor, split]
  rw [found]
  cases newer : after.reverse.find? fun q => q.version = p.version with
  | none =>
    refine iff_of_true rfl fun q mem same => ?_
    have ne := List.find?_eq_none.mp newer q (List.mem_reverse.mpr mem)
    exact ne (decide_eq_true same.symm)
  | some q =>
    have mem : q ∈ after := List.mem_reverse.mp (List.mem_of_find?_eq_some newer)
    have same : q.version = p.version := by simpa using List.find?_some newer
    refine iff_of_false (fun eq => ?_) (fun ne => ne q mem same.symm)
    exact fresh (Option.some.inj eq ▸ mem)

theorem rolloutsInOrder_iff (nodup : h.labels.Nodup) :
    h.RolloutsInOrder ↔ h.packages.Pairwise Package.Yields := by
  constructor
  case mp =>
    intro order
    refine pairwise_iff_split.mpr fun before p after split q mem same pending => ?_
    have latest := order.latest p (by simp [split]) pending
    exact (latestFor_eq_some_iff nodup split).mp latest q mem same
  case mpr =>
    intro pw
    constructor
    case unique =>
      intro v
      rw [List.countP_eq_length_filter]
      have pw := pw.filter fun p => p.version = v ∧ p.Pending
      generalize eq : h.packages.filter _ = ps at pw
      have all : ∀ p ∈ ps, p.version = v ∧ p.Pending := by simp [← eq]
      match ps with
      | [] | [_] => simp
      | p :: q :: _ =>
        have ⟨version_p, pending⟩ := all p (by simp)
        have ⟨version_q, _⟩ := all q (by simp)
        have yields := (List.pairwise_cons.mp pw).1 q (by simp)
        exact absurd pending (yields (version_p.trans version_q.symm))
    case latest =>
      intro p mem pending
      have ⟨before, after, split⟩ := List.append_of_mem mem
      refine (latestFor_eq_some_iff nodup split).mpr fun q mem same => ?_
      exact pairwise_iff_split.mp pw before p after split q mem same pending

def HasPending (ps : List Package) (v : VersionRange) : Prop :=
  ∃ p ∈ ps, p.version = v ∧ p.Pending

-- Calls that are accepted although they leave a pending package behind a newer one for its version.
def Strands (h : History) : Call → Prop
  | .release hash size uploadTime version o =>
    ∃ p h', h.release hash size uploadTime version o = .ok (.released p, h') ∧
      HasPending h.packages p.version
  | .patch deployment o =>
    ∃ p h' before after, h.patch deployment o = .ok (p, h') ∧ h'.packages = before ++ p :: after ∧
      (HasPending before p.version ∨ p.Pending ∧ ∃ q ∈ after, p.version = q.version)
  | .promote source sourceHistory o uploadTime =>
    ∃ p h', h.promote source sourceHistory o uploadTime = .ok (.released p, h') ∧
      HasPending h.packages p.version
  | .rollback deployment target =>
    ∃ p h', h.rollback deployment target = .ok (p, h') ∧ HasPending h.packages p.version
  | .clear => False

section Order

variable (order : h.packages.Pairwise Package.Yields)
include order

theorem pairwise_of_appends (appends : h.Appends p h') :
    h'.packages.Pairwise Package.Yields ↔ ¬HasPending h.packages p.version := by
  simp [appends.packages, List.pairwise_append, order, HasPending, Package.Yields]

theorem pairwise_of_offered {candidate : Candidate} {rollout : Option Int} {allowDuplicate : Bool}
    {o : Outcome} (offered : h.Offered candidate rollout allowDuplicate o h') :
    h'.packages.Pairwise Package.Yields ↔
      ¬∃ p, o = .released p ∧ HasPending h.packages p.version := by
  cases offered
  case skipped => simpa using order
  case released appends => simpa using pairwise_of_appends order appends

theorem pairwise_of_split (split : h.packages = before ++ p :: after)
    (split' : h'.packages = before ++ q :: after) :
    h'.packages.Pairwise Package.Yields ↔
      ¬(HasPending before q.version ∨ q.Pending ∧ ∃ s ∈ after, q.version = s.version) := by
  rw [split, List.pairwise_append, List.pairwise_cons] at order
  rw [split', List.pairwise_append, List.pairwise_cons]
  simp only [List.mem_cons, forall_eq_or_imp] at order ⊢
  have ⟨first, ⟨_, last⟩, across⟩ := order
  constructor
  case mp =>
    rintro ⟨_, ⟨yields, _⟩, yield⟩ (⟨s, mem, same, pending⟩ | ⟨pending, s, mem, same⟩)
    · exact (yield s mem).1 same pending
    · exact yields s mem same pending
  case mpr =>
    intro free
    refine ⟨first, ⟨fun s mem same pending => ?_, last⟩, fun s mem => ⟨fun same pending => ?_, ?_⟩⟩
    · exact free (.inr ⟨pending, s, mem, same⟩)
    · exact free (.inl ⟨s, mem, same, pending⟩)
    · exact (across s mem).2

theorem Step.pairwise_iff (wl : h.WellLabelled) (s : Step h c h') :
    h'.packages.Pairwise Package.Yields ↔ ¬h.Strands c := by
  cases s
  case release offered =>
    have ok := appendChecked_eq_ok.mpr offered
    simpa [Strands, release_eq, ok] using pairwise_of_offered order offered
  case promote copied version offered =>
    have ok n : h.promote n _ _ _ = .ok (_, h') :=
      promote_eq_ok.mpr ⟨_, _, copied, version, offered⟩
    simpa [Strands, ok] using pairwise_of_offered order offered
  case patch changes target version rollout replaced =>
    have ok d : h.patch d _ = .ok (_, h') :=
      patch_eq_ok.mpr ⟨changes, _, _, _, target, version, rollout, rfl, replaced⟩
    have ⟨before, after, split, split'⟩ := patch_split wl target replaced
    constructor
    case mp =>
      rintro order' ⟨_, _, _, _, ok', split', overlap⟩
      cases (ok _).symm.trans ok'
      exact (pairwise_of_split order' split' split').mp order' overlap
    case mpr =>
      intro free
      refine (pairwise_of_split order split split').mpr fun overlap => ?_
      exact free ⟨_, _, before, after, ok _, split', overlap⟩
  case rollback current copied ne copy appends =>
    have ok d : h.rollback d _ = .ok (_, h') :=
      rollback_eq_ok.mpr ⟨_, _, current, copied, ne, copy, appends⟩
    simpa [Strands, ok] using pairwise_of_appends order appends
  case clear => simp [Strands, empty]

end Order

theorem outcome_of_strands (strands : h.Strands c) : ∃ h', h.outcome c = .ok h' := by
  cases c
  case release | promote | rollback =>
    obtain ⟨_, h', ok, _⟩ := strands
    exact ⟨h', by simp [outcome, ok]⟩
  case patch =>
    obtain ⟨_, h', _, _, ok, _⟩ := strands
    exact ⟨h', by simp [outcome, ok]⟩
  case clear => cases strands

theorem after_pairwise_iff (wl : h.WellLabelled) (order : h.packages.Pairwise Package.Yields)
    (c : Call) : (h.after c).packages.Pairwise Package.Yields ↔ ¬h.Strands c := by
  unfold after
  split
  case h_1 ok => exact (outcome_eq_ok.mp ok).pairwise_iff order wl
  case h_2 refused =>
    refine iff_of_true order fun strands => ?_
    have ⟨_, ok⟩ := outcome_of_strands strands
    simp [ok] at refused

theorem rolloutsInOrder_throughout_iff (calls : List Call) :
    (∀ done, done <+: calls → (empty.run done).RolloutsInOrder) ↔
      ∀ done c, done ++ [c] <+: calls → ¬(empty.run done).Strands c := by
  have inOrder_iff done : (empty.run done).RolloutsInOrder ↔
      (empty.run done).WellLabelled ∧ (empty.run done).packages.Pairwise Package.Yields := by
    have wl := run_wellLabelled wellLabelled_empty done
    rw [rolloutsInOrder_iff wl.nodup, and_iff_right wl]
  have keep (h : History) c (inv : h.WellLabelled ∧ h.packages.Pairwise Package.Yields) :
      (h.after c).WellLabelled ∧ (h.after c).packages.Pairwise Package.Yields ↔ ¬h.Strands c := by
    rw [← after_pairwise_iff inv.1 inv.2 c, and_iff_right (after_wellLabelled inv.1 c)]
  simp only [inOrder_iff]
  exact Run.throughout_iff ⟨wellLabelled_empty, .nil⟩ keep calls

-- A rollback to a release for another version hides the pending one from the next release.
theorem not_rolloutsInOrder_run : ¬∀ calls, (empty.run calls).RolloutsInOrder := by
  intro order
  let one : VersionRange := ⟨"1.0.0", by decide, by decide⟩
  let two : VersionRange := ⟨"2.0.0", by decide, by decide⟩
  let calls : List Call := [
    .release "a" 1 0 two {},
    .release "b" 1 0 one { rollout := some 50 },
    .rollback ⟨"Staging", by decide⟩ none,
    .release "c" 1 0 one { rollout := some 50 }]
  exact absurd ((order calls).unique one) (by decide)

end History
end AirRelease
