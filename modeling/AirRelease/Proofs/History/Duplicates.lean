import Mathlib.Data.List.Chain
import AirRelease.Proofs.History.Acceptance
import AirRelease.Proofs.History.Growth

namespace AirRelease

-- A package of the same content for the same version comes next only by a rollback.
def Package.Renews (q p : Package) : Prop :=
  p.method = .rollback ∨ ¬p.Repeats q

namespace History

variable {h h' : History} {p : Package} {c : Candidate} {call : Call} {rollout : Option Int}
variable {allowDuplicate : Bool}

-- What is answered to content that the current release has already.
def answerToRepeated (h : History) (current : Package) (allowDuplicate : Bool) :
    Except ReleaseError Outcome × History :=
  (if allowDuplicate then .ok (.skipped current) else .error (.identical current.label), h)

theorem answered_of_repeats (latest : h.latest = some p) (repeats : c.Repeats p) :
    h.answered (h.appendChecked c rollout allowDuplicate) = h.answerToRepeated p allowDuplicate :=
  (firstOf_offerRules h c rollout allowDuplicate).unique single_offerRules
    (.applies ⟨p, latest, repeats, rfl⟩)

theorem Offered.repeats (offered : h.Offered c rollout allowDuplicate (.released p) h') :
    h'.latest = some p ∧ c.Repeats p := by
  cases offered
  case released copy appends =>
    exact ⟨appends.latest, by rw [copy], by rw [copy]⟩

-- What has just been released is not released again, whatever else is asked for the second time.
theorem retry_answered :
    (∀ (h h' : History) hash size uploadTime version o p,
      h.release hash size uploadTime version o = .ok (.released p, h') →
      ∀ size' uploadTime' o', h'.answered (h'.release hash size' uploadTime' version o') =
        h'.answerToRepeated p o'.allowDuplicate) ∧
    ∀ (h h' : History) source sourceHistory o uploadTime p,
      h.promote source sourceHistory o uploadTime = .ok (.released p, h') →
      ∀ source' sourceHistory' o' uploadTime',
        sourceHistory'.latestEnabled = sourceHistory.latestEnabled → o'.version = o.version →
        h'.answered (h'.promote source' sourceHistory' o' uploadTime') =
          h'.answerToRepeated p o'.allowDuplicate := by
  constructor
  case left =>
    intro h h' hash size uploadTime version o p ok size' uploadTime' o'
    have ⟨latest, repeats⟩ := (appendChecked_eq_ok.mp ok).repeats
    exact answered_of_repeats latest repeats
  case right =>
    intro h h' source sourceHistory o uploadTime p ok source' sourceHistory' o' uploadTime' same override
    have ⟨q, v, copied, version, offered⟩ := promote_eq_ok.mp ok
    have ⟨latest, repeats⟩ := offered.repeats
    rw [promote_eq (same.trans copied) (override ▸ version)]
    exact answered_of_repeats latest repeats

-- The release is an incomplete rollout, and the second attempt asks for a rollout that there is not.
theorem retry_answered_pending :
    let one : VersionRange := ⟨"1.0.0", by decide, by decide⟩
    let staging : Name := ⟨"Staging", by decide⟩
    let half : Rollout := ⟨50, by decide, by decide⟩
    let p : Package := { Package.plain "v1" with version := one, hash := "a", rollout := half }
    let copy : Package := { p with method := .promote }
    let source : History := ⟨[{ p with rollout := .full }]⟩
    empty.release "a" 1 0 one { rollout := some 50 } = .ok (.released p, ⟨[p]⟩) ∧
      History.answered ⟨[p]⟩ (History.release ⟨[p]⟩ "a" 1 7 one { rollout := some 900 }) =
        answerToRepeated ⟨[p]⟩ p false ∧
      empty.promote staging source { rollout := some 50 } 0 = .ok (.released copy, ⟨[copy]⟩) ∧
      History.answered ⟨[copy]⟩
          (History.promote ⟨[copy]⟩ staging source { rollout := some 900, allowDuplicate := true } 7) =
        answerToRepeated ⟨[copy]⟩ copy true := by
  intro one staging half p copy source
  have released : empty.release "a" 1 0 one { rollout := some 50 } = .ok (.released p, ⟨[p]⟩) := rfl
  have promoted : empty.promote staging source { rollout := some 50 } 0 =
    .ok (.released copy, ⟨[copy]⟩) := rfl
  have ⟨retry, retry'⟩ := retry_answered
  exact ⟨released, retry _ _ _ _ _ _ _ _ released _ _ _, promoted,
    retry' _ _ _ _ _ _ _ promoted _ _ _ _ rfl rfl⟩

def Renewed (h : History) : Prop :=
  h.packages.IsChain Package.Renews

theorem Renewed.append (renewed : h.Renewed) (appends : h.Appends p h')
    (renews : ∀ q, h.latest = some q → q.Renews p) : h'.Renewed := by
  rw [Renewed, appends.packages, List.isChain_append]
  refine ⟨renewed, List.isChain_singleton p, fun q latest s head => ?_⟩
  cases head
  exact renews q latest

-- A package can be replaced by one that its neighbours do not tell from it.
theorem Renewed.replace {before after : List Package} {q : Package} (renewed : h.Renewed)
    (split : h.packages = before ++ p :: after) (split' : h'.packages = before ++ q :: after)
    (left : ∀ s : Package, s.Renews p → s.Renews q) (right : ∀ s, p.Renews s → q.Renews s) :
    h'.Renewed := by
  rw [Renewed, split, List.isChain_append, List.isChain_cons] at renewed
  rw [Renewed, split', List.isChain_append, List.isChain_cons]
  have ⟨first, ⟨next, last⟩, joined⟩ := renewed
  refine ⟨first, ⟨fun s head => right s (next s head), last⟩, fun s latest t head => ?_⟩
  cases head
  exact left s (joined s latest p rfl)

theorem Offered.renewed {x : Outcome} (renewed : h.Renewed)
    (offered : h.Offered c rollout allowDuplicate x h') : h'.Renewed := by
  cases offered
  case skipped => exact renewed
  case released free requested copy appends =>
    refine renewed.append appends fun q latest => .inr ?_
    rw [copy]
    exact (free q latest).1

-- Neither the content of a package nor what has brought it changes when it is patched.
theorem Step.renewed (wl : h.WellLabelled) (renewed : h.Renewed)
    (pinned : ∀ deployment o, call = .patch deployment o → o.version = none) (s : Step h call h') :
    h'.Renewed := by
  cases s
  case release offered | promote offered => exact offered.renewed renewed
  case patch o _ v _ deployment changes target version rollout replaced =>
    have ⟨_, _, split, split'⟩ := patch_split wl target replaced
    rw [pinned _ _ rfl] at version
    cases version
    exact renewed.replace split split' (fun _ renews => renews) (fun _ renews => renews)
  case rollback copy appends =>
    refine renewed.append appends fun q latest => .inl ?_
    rw [copy]
  case clear => exact .nil

theorem run_renewed (wl : h.WellLabelled) (renewed : h.Renewed) {calls : List Call}
    (pinned : ∀ deployment o, .patch deployment o ∈ calls → o.version = none) :
    (h.run calls).Renewed := by
  refine (List.foldlRecOn calls after (motive := fun h' => h'.WellLabelled ∧ h'.Renewed)
    ⟨wl, renewed⟩ fun h' ⟨wl, renewed⟩ call mem => ⟨after_wellLabelled wl call, ?_⟩).2
  cases h'.after_eq_or_step call
  case inl same => rwa [same]
  case inr s => exact s.renewed wl renewed fun deployment o eq => pinned deployment o (eq ▸ mem)

-- What an upload or a promotion has brought differs from the package before it.
theorem renewed_of_run {calls : List Call}
    (pinned : ∀ deployment o, .patch deployment o ∈ calls → o.version = none) :
    ∀ before q p after, (empty.run calls).packages = before ++ q :: p :: after →
      p.method = .upload ∨ p.method = .promote → q.hash ≠ p.hash ∨ q.version ≠ p.version := by
  intro before q p after split brought
  have renewed := run_renewed wellLabelled_empty .nil pinned
  rw [Renewed, split, List.isChain_append_cons_cons] at renewed
  have ⟨_, renews, _⟩ := renewed
  cases renews
  case inl method => simp [method] at brought
  case inr unlike => exact not_and_or.mp unlike

-- A rollback brings a copy of the first package, and the second one can be released again after it.
theorem renewed_of_run_copied :
    let one : VersionRange := ⟨"1.0.0", by decide, by decide⟩
    let staging : Name := ⟨"Staging", by decide⟩
    let calls : List Call := [
      .release "a" 1 0 one {},
      .release "b" 1 0 one {},
      .patch staging { label := some ⟨"v1"⟩, mandatory := some true },
      .rollback staging none,
      .release "b" 1 0 one {}]
    let v1 : Package := { Package.plain "v1" with version := one, hash := "a", mandatory := true }
    let v2 : Package := { Package.plain "v2" with version := one, hash := "b" }
    let v3 : Package := { v1 with label := ⟨"v3"⟩, method := .rollback }
    let v4 : Package := { v2 with label := ⟨"v4"⟩ }
    (∀ deployment o, .patch deployment o ∈ calls → o.version = none) ∧
      (empty.run calls).packages = [v1, v2] ++ v3 :: v4 :: [] ∧ v4.method = .upload ∧
      (v3.hash ≠ v4.hash ∨ v3.version ≠ v4.version) := by
  intro one staging calls v1 v2 v3 v4
  have pinned (deployment : Name) (o : PatchOptions) (mem : .patch deployment o ∈ calls) :
      o.version = none := by
    have ⟨_, eq⟩ : deployment = staging ∧ o = { label := some ⟨"v1"⟩, mandatory := some true } := by
      simpa [calls] using mem
    rw [eq]
  have split : (empty.run calls).packages = [v1, v2] ++ v3 :: v4 :: [] := by decide
  exact ⟨pinned, split, rfl, renewed_of_run pinned _ _ _ _ split (.inl rfl)⟩

end History
end AirRelease
