import Mathlib.Algebra.Group.Nat.Defs
import AirRelease.Proofs.History.Labels
import AirRelease.Proofs.Rules

namespace AirRelease

-- Whether another label can come after this one.
def Label.Followed (l : Label) : Prop :=
  ∃ n, l.Spells n ∧ 1 ≤ n ∧ n ≤ 2 ^ 64 - 2

theorem Label.next_of_followed {l : Label} (followed : l.Followed) :
    ∃ n, l.number = .ok n ∧ l.next = .ok (ofNumber (n + 1)) := by
  obtain ⟨n, spells, pos, le⟩ := followed
  have lt : n < maxNumber := by
    rw [maxNumber, UInt64.size]
    omega
  have number := number_eq_ok.mpr ⟨spells, pos, by omega⟩
  exact ⟨n, number, next_of_number number lt⟩

theorem Label.followed_of_next {l k : Label} (next : l.next = .ok k) : l.Followed := by
  obtain ⟨n, number, lt, _⟩ := next_eq_ok.mp next
  obtain ⟨spells, pos, _⟩ := number_eq_ok.mp number
  rw [maxNumber, UInt64.size] at lt
  exact ⟨n, spells, pos, by omega⟩

section Rollout

variable {rollout : Option Int} {current : Option Package} {r : Rollout} {e : RolloutError}

-- A rollout that is not given counts as a full one.
theorem Rollout.requested_cases (rollout : Option Int) :
    (∃ value, rollout = some value ∧ ¬(1 ≤ value ∧ value ≤ 100) ∧
      requested rollout = .error (.outOfRange value)) ∨
    ∃ r : Rollout, rollout.getD 100 = r.percent ∧ requested rollout = .ok r := by
  cases rollout with
  | none => exact .inr ⟨full, rfl, rfl⟩
  | some value =>
    by_cases ranged : 1 ≤ value ∧ value ≤ 100
    case pos =>
      have percent : value = value.toNat := by omega
      exact .inr ⟨⟨value.toNat, by omega, by omega⟩, percent, by simp [requested, ofInt, ranged]⟩
    case neg => exact .inl ⟨value, rfl, ranged, by simp [requested, ofInt, ranged]⟩

theorem Rollout.forRelease_of_refused (refused : requested rollout = .error e) :
    forRelease rollout current = .error e := by
  rw [requested] at refused
  rw [forRelease, refused]
  rfl

theorem Rollout.forRelease_of_pending {p : Package} (ranged : requested rollout = .ok r)
    (pending : p.Pending) : forRelease rollout (some p) = .error (.inProgress p.label) := by
  rw [requested] at ranged
  rw [forRelease, ranged]
  exact if_pos pending

end Rollout

-- The options of a release that says of a package what a promotion of it says.
def PromoteOptions.asRelease (o : PromoteOptions) (p : Package) : ReleaseOptions where
  description := o.description.or p.description
  disabled := some (o.disabled.getD p.disabled)
  mandatory := some (o.mandatory.getD p.mandatory)
  rollout := o.rollout
  allowDuplicate := o.allowDuplicate

-- The same, but a package that has been released is marked as copied from another deployment.
def Outcome.promoted : Outcome × History → Outcome × History
  | (.released p, h) =>
    let p := { p with method := .promote }
    (.released p, ⟨h.packages.dropLast ++ [p]⟩)
  | (.skipped p, h) => (.skipped p, h)

namespace History

variable {h : History} {c : Candidate} {rollout : Option Int} {allowDuplicate : Bool}

-- The package that a candidate becomes.
def successor (h : History) (c : Candidate) (r : Rollout) : Package :=
  { c with rollout := r }.labelled (.ofNumber (h.lastNumber + 1))

-- The reasons to pass a candidate over or to refuse it, in their order.
def offerRules (h : History) (c : Candidate) (rollout : Option Int) (allowDuplicate : Bool) :
    List (Except ReleaseError Outcome × History → Prop) := [
  fun a => ∃ q, h.latest = some q ∧ c.Repeats q ∧
    a = (if allowDuplicate then .ok (.skipped q) else .error (.identical q.label), h),
  fun a => ∃ value, rollout = some value ∧ ¬(1 ≤ value ∧ value ≤ 100) ∧
    a = (.error (.badRollout value), h),
  fun a => ∃ q, h.latest = some q ∧ q.Pending ∧ a = (.error (.rolloutInProgress q.label), h),
  fun a => ∃ q, h.latest = some q ∧ ¬q.label.Followed ∧ a = (.error (.corruptHistory q.label), h),
  fun a => ∃ r : Rollout, rollout.getD 100 = r.percent ∧
    a = (.ok (.released (h.successor c r)), ⟨h.packages ++ [h.successor c r]⟩)]

theorem single_offerRules (rule) (mem : rule ∈ h.offerRules c rollout allowDuplicate) (a b)
    (gives : rule a) (gives' : rule b) : a = b := by
  simp only [offerRules, List.mem_cons, List.not_mem_nil, or_false] at mem
  rcases mem with rfl | rfl | rfl | rfl | rfl
  case inr.inr.inr.inr =>
    obtain ⟨r, percent, rfl⟩ := gives
    obtain ⟨s, percent', rfl⟩ := gives'
    have same : r = s := Rollout.ext (by omega)
    rw [same]
  all_goals
    obtain ⟨x, given, _, rfl⟩ := gives
    obtain ⟨y, given', _, rfl⟩ := gives'
    cases given.symm.trans given'
    rfl

theorem nextLabel_cases (h : History) :
    (∃ q, h.latest = some q ∧ ¬q.label.Followed ∧ h.nextLabel = .error (.corrupt q.label)) ∨
    (∀ q, h.latest = some q → q.label.Followed) ∧ h.nextLabel = .ok (.ofNumber (h.lastNumber + 1)) := by
  cases latest : h.latest with
  | none => exact .inr ⟨nofun, by simp [nextLabel, latest, lastNumber, Label.first]⟩
  | some q =>
    by_cases followed : q.label.Followed
    case pos =>
      obtain ⟨n, number, next⟩ := Label.next_of_followed followed
      refine .inr ⟨fun _ same => Option.some.inj same ▸ followed, ?_⟩
      simp [nextLabel, latest, next, lastNumber, number, Except.toOption]
    case neg =>
      cases next : q.label.next with
      | ok => exact absurd (Label.followed_of_next next) followed
      | error => exact .inl ⟨q, rfl, followed, by simp [nextLabel, latest, next]⟩

theorem appendChecked_of_fresh (fresh : ∀ q, h.latest = some q → ¬c.Repeats q) :
    h.appendChecked c rollout allowDuplicate = appendChecked.go h c rollout h.latest := by
  unfold appendChecked
  cases latest : h.latest with
  | none => rfl
  | some q => exact if_neg (fresh q latest)

-- One reason after another is ruled out.
theorem firstOf_offerRules (h : History) (c : Candidate) (rollout : Option Int) (allowDuplicate : Bool) :
    FirstOf (h.offerRules c rollout allowDuplicate)
      (h.answered (h.appendChecked c rollout allowDuplicate)) := by
  by_cases repeats : ∃ q, h.latest = some q ∧ c.Repeats q
  case pos =>
    obtain ⟨q, latest, repeats⟩ := repeats
    refine .applies ⟨q, latest, repeats, ?_⟩
    simp only [appendChecked, latest, if_pos (Candidate.repeats_iff.mp repeats)]
    split <;> rfl
  rw [appendChecked_of_fresh fun q latest same => repeats ⟨q, latest, same⟩, appendChecked.go]
  refine .passes ?_ ?_
  · rintro _ ⟨q, latest, same, _⟩
    exact repeats ⟨q, latest, same⟩
  rcases Rollout.requested_cases rollout with ⟨value, given, out, refused⟩ | ⟨r, percent, requested⟩
  case inl =>
    refine .applies ⟨value, given, out, ?_⟩
    rw [Rollout.forRelease_of_refused refused]
    rfl
  refine .passes ?_ ?_
  · rintro _ ⟨value, given, out, _⟩
    have := r.pos
    have := r.le
    rw [given, Option.getD_some] at percent
    omega
  by_cases pending : ∃ q, h.latest = some q ∧ q.Pending
  case pos =>
    obtain ⟨q, latest, pending⟩ := pending
    refine .applies ⟨q, latest, pending, ?_⟩
    rw [latest, Rollout.forRelease_of_pending requested pending]
    rfl
  have idle : Rollout.forRelease rollout h.latest = .ok r :=
    Rollout.forRelease_eq_ok.mpr ⟨requested, fun q latest waits => pending ⟨q, latest, waits⟩⟩
  rw [idle]
  refine .passes ?_ ?_
  · rintro _ ⟨q, latest, waits, _⟩
    exact pending ⟨q, latest, waits⟩
  rcases h.nextLabel_cases with ⟨q, latest, last, next⟩ | ⟨followed, next⟩
  case inl =>
    refine .applies ⟨q, latest, last, ?_⟩
    simp only [append, next]
    rfl
  refine .passes ?_ (.applies ⟨r, percent, ?_⟩)
  · rintro _ ⟨q, latest, last, _⟩
    exact last (followed q latest)
  · simp only [append, next]
    rfl

-- The guards do not ask how a candidate has come about.
theorem appendChecked_promoted (h : History) (c : Candidate) (rollout : Option Int) (allowDuplicate : Bool) :
    h.appendChecked { c with method := .promote } rollout allowDuplicate =
      (h.appendChecked c rollout allowDuplicate).map Outcome.promoted := by
  have go (current : Option Package) : appendChecked.go h { c with method := .promote } rollout current =
      (appendChecked.go h c rollout current).map Outcome.promoted := by
    rw [appendChecked.go, appendChecked.go]
    cases Rollout.forRelease rollout current with
    | error => rfl
    | ok r =>
      simp only [append]
      cases h.nextLabel with
      | error => rfl
      | ok l =>
        simp [Except.map, bind, Except.bind, pure, Except.pure, Outcome.promoted,
          Candidate.labelled]
  unfold appendChecked
  cases h.latest with
  | none => exact go none
  | some q =>
    by_cases same : q.hash = c.hash ∧ q.version = c.version
    case pos =>
      simp only [if_pos same]
      cases allowDuplicate <;> rfl
    case neg =>
      simp only [if_neg same]
      exact go (some q)

theorem promote_eq {source : Name} {sourceHistory : History} {o : PromoteOptions} {uploadTime : Nat}
    {p : Package} {v : Option VersionRange} (copied : sourceHistory.latestEnabled = some p)
    (version : VersionRange.override o.version = .ok v) :
    h.promote source sourceHistory o uploadTime =
      h.appendChecked (o.candidate p uploadTime v) o.rollout o.allowDuplicate := by
  rw [VersionRange.override] at version
  rw [promote, copied, version]
  simp only [Option.orElse_eq_orElse, Option.orElse_eq_or]
  rfl

theorem promote_eq_release {source : Name} {sourceHistory : History} {o : PromoteOptions} {uploadTime : Nat}
    {p : Package} {v : Option VersionRange} (copied : sourceHistory.latestEnabled = some p)
    (version : VersionRange.override o.version = .ok v) :
    h.promote source sourceHistory o uploadTime =
      (h.release p.hash p.size uploadTime (v.getD p.version) (o.asRelease p)).map Outcome.promoted := by
  rw [promote_eq copied version, release_eq]
  exact appendChecked_promoted h ((o.asRelease p).candidate p.hash p.size uploadTime (v.getD p.version)) ..

-- A release gets the answer of the first rule that applies. A promotion is answered like a release.
theorem release_and_promote_answered (h : History) :
    (∀ hash size uploadTime version o a,
      h.answered (h.release hash size uploadTime version o) = a ↔
        FirstOf (h.offerRules (o.candidate hash size uploadTime version) o.rollout o.allowDuplicate) a) ∧
    ∀ source sourceHistory o uploadTime p v, sourceHistory.latestEnabled = some p →
      VersionRange.override o.version = .ok v →
      h.promote source sourceHistory o uploadTime =
        (h.release p.hash p.size uploadTime (v.getD p.version) (o.asRelease p)).map Outcome.promoted := by
  constructor
  case left =>
    intro hash size uploadTime version o a
    rw [release_eq]
    exact (firstOf_offerRules ..).eq_iff single_offerRules
  case right =>
    intro source sourceHistory o uploadTime p v copied version
    exact promote_eq_release copied version

-- The newest package is disabled, so the one before it is promoted, for another version.
theorem release_and_promote_answered_loaded :
    let p : Package := { Package.plain "v1" with hash := "ab", description := some "first" }
    let source : History := ⟨[p, { Package.plain "v2" with disabled := true }]⟩
    let two : VersionRange := ⟨"2.0.0", by decide, by decide⟩
    let o : PromoteOptions := { version := some " 2.0.0", rollout := some 50 }
    source.latestEnabled = some p ∧ VersionRange.override o.version = .ok (some two) ∧
      loaded.promote ⟨"Staging", by decide⟩ source o 7 =
        (loaded.release "ab" 1 7 two (o.asRelease p)).map Outcome.promoted ∧
      (loaded.answered (loaded.release "ab" 1 7 two (o.asRelease p))).2.packages.length = 3 ∧
      FirstOf (loaded.offerRules ((o.asRelease p).candidate "ab" 1 7 two) (some 50) false)
        (loaded.answered (loaded.release "ab" 1 7 two (o.asRelease p))) := by
  intro p source two o
  have version : VersionRange.override o.version = .ok (some two) := rfl
  have ⟨released, promoted⟩ := release_and_promote_answered loaded
  exact ⟨rfl, version, promoted _ source o 7 p (some two) rfl version, by decide,
    (released "ab" 1 7 two (o.asRelease p) _).mp rfl⟩

end History
end AirRelease
