import AirRelease.Proofs.Success
import AirRelease.Release

namespace AirRelease

-- The version that a patch or a promotion asks for.
def VersionRange.override (text : Option String) : Except ReleaseError (Option VersionRange) :=
  text.mapM fun text => (VersionRange.ofText text).mapError .ofVersion

-- The rollout that a patch of a package asks for.
def Rollout.raised (p : Package) (value : Option Int) : Except ReleaseError (Option Rollout) :=
  value.mapM fun value => (Rollout.forPatch p value).mapError .ofRollout

theorem Rollout.ranged_of_raised {p : Package} {value : Option Int} {r : Option Rollout}
    (h : raised p value = .ok r) :
    ∃ s, value.mapM (fun value => (ofInt value).mapError ReleaseError.ofRollout) = .ok s := by
  cases value with
  | none => exact ⟨none, rfl⟩
  | some value =>
    simp only [raised, Option.mapM_some, fmap_eq_map, map_eq_ok, mapError_eq_ok] at h ⊢
    obtain ⟨_, ok, _⟩ := h
    obtain ⟨s, ranged, _⟩ := bind_eq_ok.mp ok
    exact ⟨some s, s, ranged, rfl⟩

-- A release without a rollout of its own is a full one.
def Rollout.requested (rollout : Option Int) : Except RolloutError Rollout :=
  rollout.elim (.ok full) ofInt

theorem Rollout.forRelease_eq_ok {rollout : Option Int} {current : Option Package} {r : Rollout} :
    forRelease rollout current = .ok r ↔
      requested rollout = .ok r ∧ ∀ p, current = some p → ¬p.Pending := by
  cases current <;> simp [forRelease, requested]

-- Whether a release would repeat the content of another one for the same version.
def Candidate.Repeats (c : Candidate) (p : Package) : Prop :=
  p.hash = c.hash ∧ p.version = c.version

theorem Candidate.repeats_iff {c : Candidate} {p : Package} :
    c.Repeats p ↔ p.hash = c.hash ∧ p.version = c.version :=
  .rfl

def ReleaseOptions.candidate (o : ReleaseOptions) (hash : String) (size uploadTime : Nat)
    (version : VersionRange) : Candidate where
  version
  hash
  size
  uploadTime
  description := o.description
  disabled := o.disabled.getD false
  mandatory := o.mandatory.getD false
  rollout := .full
  method := .upload

def PromoteOptions.candidate (o : PromoteOptions) (p : Package) (uploadTime : Nat)
    (version : Option VersionRange) : Candidate :=
  { p.toCandidate with
    version := version.getD p.version
    uploadTime
    description := o.description.or p.description
    disabled := o.disabled.getD p.disabled
    mandatory := o.mandatory.getD p.mandatory
    rollout := .full
    method := .promote
  }

-- What a patch makes of a package, once the version and the rollout have been read.
def PatchOptions.applied (o : PatchOptions) (p : Package) (version : Option VersionRange)
    (rollout : Option Rollout) : Package :=
  { p with
    rollout := rollout.getD p.rollout
    version := version.getD p.version
    description := o.description.or p.description
    disabled := o.disabled.getD p.disabled
    mandatory := o.mandatory.getD p.mandatory
  }

namespace History

inductive Call
  | release (hash : String) (size uploadTime : Nat) (version : VersionRange) (o : ReleaseOptions)
  | patch (deployment : Name) (o : PatchOptions)
  | promote (source : Name) (sourceHistory : History) (o : PromoteOptions) (uploadTime : Nat)
  | rollback (deployment : Name) (target : Option Label)
  | clear

-- The history that a call leaves, if it is accepted.
def outcome (h : History) : Call → Except ReleaseError History
  | .release hash size uploadTime version o => (h.release hash size uploadTime version o).map (·.2)
  | .patch deployment o => (h.patch deployment o).map (·.2)
  | .promote source sourceHistory o uploadTime =>
    (h.promote source sourceHistory o uploadTime).map (·.2)
  | .rollback deployment target => (h.rollback deployment target).map (·.2)
  | .clear => .ok h.clear

-- A refused call leaves the history as it is.
def after (h : History) (c : Call) : History :=
  match h.outcome c with
  | .ok h' => h'
  | .error _ => h

def run (h : History) (calls : List Call) : History :=
  calls.foldl after h

-- What comes back from an operation, with the history after it. One that is refused changes nothing.
def answered {α : Type} (h : History) :
    Except ReleaseError (α × History) → Except ReleaseError α × History
  | .ok (a, h') => (.ok a, h')
  | .error e => (.error e, h)

-- A package takes the next label and comes last.
structure Appends (h : History) (p : Package) (h' : History) : Prop where
  label : h.nextLabel = .ok p.label
  packages : h'.packages = h.packages ++ [p]

-- What becomes of a candidate: a repetition is passed over on request, anything else is appended
-- unless the current release is an incomplete rollout.
inductive Offered (h : History) (c : Candidate) (rollout : Option Int) (allowDuplicate : Bool) :
    Outcome → History → Prop
  | skipped (latest : h.latest = some q) (same : c.Repeats q) (allowed : allowDuplicate) :
    Offered h c rollout allowDuplicate (.skipped q) h
  | released (free : ∀ q, h.latest = some q → ¬c.Repeats q ∧ ¬q.Pending)
      (requested : Rollout.requested rollout = .ok r)
      (copy : p.toCandidate = { c with rollout := r }) (appends : h.Appends p h') :
    Offered h c rollout allowDuplicate (.released p) h'

section Operations

variable {h h' : History} {p q : Package} {l : Label} {c : Candidate} {deployment : Name}

theorem append_eq_ok_iff :
    h.append c = .ok (p, h') ↔ p.toCandidate = c ∧ h.Appends p h' := by
  constructor
  case mp =>
    intro ok
    have ⟨label, eq, packages⟩ := append_eq_ok ok
    exact ⟨eq, label, packages⟩
  case mpr =>
    rintro ⟨rfl, label, packages⟩
    have eq : h' = ⟨h.packages ++ [p]⟩ := History.ext packages
    simp [append, label, eq, Candidate.labelled]

theorem replace_eq_ok :
    h.replace l p = .ok h' ↔ (h.find l).isSome ∧
      h' = ⟨changeFirst (·.label = l) (fun _ => { p with label := l }) h.packages⟩ := by
  unfold replace
  cases h.find l <;> simp
  exact eq_comm

theorem appendChecked_eq_ok {rollout : Option Int} {allowDuplicate : Bool} {o : Outcome} :
    h.appendChecked c rollout allowDuplicate = .ok (o, h') ↔
      h.Offered c rollout allowDuplicate o h' := by
  have go_eq_ok (current : Option Package) : appendChecked.go h c rollout current = .ok (o, h') ↔
      ∃ r, Rollout.requested rollout = .ok r ∧ (∀ q, current = some q → ¬q.Pending) ∧
        ∃ p, p.toCandidate = { c with rollout := r } ∧ h.Appends p h' ∧ .released p = o := by
    simp [appendChecked.go, Rollout.forRelease_eq_ok, append_eq_ok_iff, and_assoc]
  unfold appendChecked
  constructor
  case mp =>
    intro ok
    split at ok
    case h_1 q latest =>
      split at ok
      case isTrue same =>
        simp only [ite_else_error_eq_ok, Except.ok.injEq, Prod.mk.injEq] at ok
        obtain ⟨allowed, rfl, rfl⟩ := ok
        exact .skipped latest same allowed
      case isFalse ne =>
        obtain ⟨r, requested, free, p, copy, appends, rfl⟩ := (go_eq_ok _).mp ok
        exact .released (by simp_all [Candidate.Repeats]) requested copy appends
    case h_2 latest =>
      obtain ⟨r, requested, free, p, copy, appends, rfl⟩ := (go_eq_ok _).mp ok
      exact .released (by simp [latest]) requested copy appends
  case mpr =>
    intro offered
    cases offered
    case skipped latest same allowed =>
      simp [latest, allowed, if_pos (Candidate.repeats_iff.mp same)]
    case released free requested copy appends =>
      cases latest : h.latest with
      | none => exact (go_eq_ok _).mpr ⟨_, requested, by simp, _, copy, appends, rfl⟩
      | some q =>
        obtain ⟨ne, idle⟩ := free q latest
        simp only [if_neg (mt Candidate.repeats_iff.mpr ne)]
        exact (go_eq_ok _).mpr ⟨_, requested, by simpa using idle, _, copy, appends, rfl⟩

theorem release_eq (h : History) (hash : String) (size uploadTime : Nat) (version : VersionRange)
    (o : ReleaseOptions) :
    h.release hash size uploadTime version o =
      h.appendChecked (o.candidate hash size uploadTime version) o.rollout o.allowDuplicate :=
  rfl

theorem promote_eq_ok {source : Name} {sourceHistory : History} {o : PromoteOptions}
    {uploadTime : Nat} {x : Outcome} :
    h.promote source sourceHistory o uploadTime = .ok (x, h') ↔
      ∃ q v, sourceHistory.latestEnabled = some q ∧ VersionRange.override o.version = .ok v ∧
        h.Offered (o.candidate q uploadTime v) o.rollout o.allowDuplicate x h' := by
  simp [promote, ← appendChecked_eq_ok, PromoteOptions.candidate, VersionRange.override]

theorem patchTarget_eq_ok {target : Option Label} :
    h.patchTarget deployment target = .ok q ↔ target.elim h.latest h.find = some q := by
  cases target with
  | none => simp [patchTarget]
  | some l =>
    simp only [patchTarget, Option.elim_some]
    cases h.find l with
    | none => simp
    | some p => simp

theorem patch_eq_ok {o : PatchOptions} :
    h.patch deployment o = .ok (p, h') ↔
      o.HasChanges ∧ ∃ q v r, o.label.elim h.latest h.find = some q ∧
        VersionRange.override o.version = .ok v ∧ Rollout.raised q o.rollout = .ok r ∧
        p = o.applied q v r ∧ h.replace p.label p = .ok h' := by
  simp only [patch, throw_eq_error, error_bind, ite_not, ite_else_error_eq_ok, bind_eq_ok,
    mapError_eq_ok, patchTarget_eq_ok, pure_eq_ok, Prod.mk.injEq, Option.orElse_eq_orElse,
    Option.orElse_eq_or]
  constructor
  case mp =>
    rintro ⟨changes, v, version, _, _, q, target, r, raised, _, replaced, rfl, rfl⟩
    exact ⟨changes, q, v, r, target, version, raised, rfl, replaced⟩
  case mpr =>
    rintro ⟨changes, q, v, r, target, version, raised, rfl, replaced⟩
    obtain ⟨s, ranged⟩ := Rollout.ranged_of_raised raised
    exact ⟨changes, v, version, s, ranged, q, target, r, raised, h', replaced, rfl, rfl⟩

theorem rollbackTarget_eq_ok {current : Package} {target : Option Label} :
    h.rollbackTarget deployment current target = .ok q ↔
      target.elim h.previous h.find = some q ∧ (target.isSome → q.label ≠ current.label) := by
  cases target with
  | none => simp [rollbackTarget]
  | some l =>
    simp only [rollbackTarget, Option.elim_some]
    cases h.find l with
    | none => simp
    | some p =>
      simp only [ite_error_eq_ok, Except.ok.injEq, Option.some.injEq, Option.isSome_some,
        forall_const]
      constructor
      · rintro ⟨ne, rfl⟩
        exact ⟨rfl, ne⟩
      · rintro ⟨rfl, ne⟩
        exact ⟨ne, rfl⟩

theorem rollback_eq_ok {target : Option Label} :
    h.rollback deployment target = .ok (p, h') ↔
      ∃ current q, h.latest = some current ∧ target.elim h.previous h.find = some q ∧
        (target.isSome → q.label ≠ current.label) ∧
        p.toCandidate = { q.toCandidate with method := .rollback } ∧ h.Appends p h' := by
  simp [rollback, append_eq_ok_iff, rollbackTarget_eq_ok, and_assoc]

end Operations

-- What an accepted call has checked and does, one case for each kind of call.
inductive Step (h : History) : Call → History → Prop
  | release {hash : String}
      (offered : h.Offered (o.candidate hash size uploadTime version) o.rollout o.allowDuplicate
        x h') :
    Step h (.release hash size uploadTime version o) h'
  | patch (changes : o.HasChanges) (target : o.label.elim h.latest h.find = some p)
      (version : VersionRange.override o.version = .ok v)
      (rollout : Rollout.raised p o.rollout = .ok r)
      (replaced : h.replace p.label (o.applied p v r) = .ok h') :
    Step h (.patch deployment o) h'
  | promote (copied : sourceHistory.latestEnabled = some p)
      (version : VersionRange.override o.version = .ok v)
      (offered : h.Offered (o.candidate p uploadTime v) o.rollout o.allowDuplicate x h') :
    Step h (.promote source sourceHistory o uploadTime) h'
  | rollback (current : h.latest = some q) (copied : target.elim h.previous h.find = some p)
      (ne : target.isSome → p.label ≠ q.label)
      (copy : p'.toCandidate = { p.toCandidate with method := .rollback })
      (appends : h.Appends p' h') :
    Step h (.rollback deployment target) h'
  | clear : Step h .clear empty

theorem outcome_eq_ok {h h' : History} {c : Call} : h.outcome c = .ok h' ↔ Step h c h' := by
  constructor
  case mp =>
    intro ok
    cases c <;> simp only [outcome, map_eq_ok, Prod.exists, exists_eq_right] at ok
    case release =>
      obtain ⟨_, ok⟩ := ok
      exact .release (appendChecked_eq_ok.mp ok)
    case patch =>
      obtain ⟨_, ok⟩ := ok
      obtain ⟨changes, _, _, _, target, version, rollout, rfl, replaced⟩ := patch_eq_ok.mp ok
      exact .patch changes target version rollout replaced
    case promote =>
      obtain ⟨_, ok⟩ := ok
      obtain ⟨_, _, copied, version, offered⟩ := promote_eq_ok.mp ok
      exact .promote copied version offered
    case rollback =>
      obtain ⟨_, ok⟩ := ok
      obtain ⟨_, _, current, copied, ne, copy, appends⟩ := rollback_eq_ok.mp ok
      exact .rollback current copied ne copy appends
    case clear =>
      cases ok
      exact .clear
  case mpr =>
    intro s
    cases s <;> simp only [outcome, map_eq_ok, Prod.exists, exists_eq_right]
    case release offered => exact ⟨_, appendChecked_eq_ok.mpr offered⟩
    case patch changes target version rollout replaced =>
      exact ⟨_, patch_eq_ok.mpr ⟨changes, _, _, _, target, version, rollout, rfl, replaced⟩⟩
    case promote copied version offered =>
      exact ⟨_, promote_eq_ok.mpr ⟨_, _, copied, version, offered⟩⟩
    case rollback current copied ne copy appends =>
      exact ⟨_, rollback_eq_ok.mpr ⟨_, _, current, copied, ne, copy, appends⟩⟩
    case clear => rfl

theorem after_eq_or_step (h : History) (c : Call) : h.after c = h ∨ Step h c (h.after c) := by
  unfold after
  split
  case h_1 ok => exact .inr (outcome_eq_ok.mp ok)
  case h_2 => exact .inl rfl

end History
end AirRelease
