import Mathlib.Algebra.Group.Nat.Defs
import AirRelease.Proofs.History.Labels

namespace AirRelease.History

-- What a package is when a rollback has gone back to it.
def restored (h : History) (p : Package) : Package :=
  { p with label := ⟨"v" ++ (h.length + 1).repr⟩, method := .rollback }

-- What is answered to a rollback and what history it leaves. The packages are counted from the oldest.
inductive RolledBack (deployment : Name) (h : History) :
    Option Label → Except ReleaseError Package × History → Prop
  | nothing (count : h.length = 0) :
    RolledBack deployment h target (.error (.nothingToRollBack deployment), h)
  | single (count : h.length = 1) :
    RolledBack deployment h none (.error (.noPriorRelease deployment), h)
  | previous (at_i : h.packages[i]? = some p) (count : h.length = i + 2) :
    RolledBack deployment h none (.ok (h.restored p), ⟨h.packages ++ [h.restored p]⟩)
  | newest (count : h.length = i + 1) :
    RolledBack deployment h (some ⟨"v" ++ (i + 1).repr⟩)
      (.error (.rollbackToCurrent ⟨"v" ++ (i + 1).repr⟩), h)
  | older (at_i : h.packages[i]? = some p) (lt : i + 1 < h.length) :
    RolledBack deployment h (some ⟨"v" ++ (i + 1).repr⟩)
      (.ok (h.restored p), ⟨h.packages ++ [h.restored p]⟩)
  | unknown (pos : 0 < h.length) (ne : ∀ i < h.length, l.text ≠ "v" ++ (i + 1).repr) :
    RolledBack deployment h (some l) (.error (.rollbackLabelNotFound l deployment), h)

variable {h h' h'' : History} {p p' q current : Package} {e : ReleaseError} {deployment : Name}
variable {target : Option Label} {a : Except ReleaseError Package × History} {i : Nat}

theorem exists_rolledBack (deployment : Name) (h : History) (target : Option Label) :
    ∃ a, h.RolledBack deployment target a := by
  have at_place {i : Nat} (lt : i < h.length) : ∃ p, h.packages[i]? = some p :=
    ⟨_, List.getElem?_eq_getElem lt⟩
  by_cases nothing : h.length = 0
  case pos => exact ⟨_, .nothing nothing⟩
  cases target with
  | none =>
    by_cases single : h.length = 1
    case pos => exact ⟨_, .single single⟩
    have ⟨p, at_i⟩ := at_place (i := h.length - 2) (by omega)
    exact ⟨_, .previous at_i (by omega)⟩
  | some l =>
    by_cases known : ∃ i < h.length, l.text = "v" ++ (i + 1).repr
    case neg => exact ⟨_, .unknown (by omega) fun i lt same => known ⟨i, lt, same⟩⟩
    have ⟨i, lt, same⟩ := known
    obtain rfl : l = ⟨"v" ++ (i + 1).repr⟩ := congrArg Label.mk same
    by_cases newest : h.length = i + 1
    case pos => exact ⟨_, .newest newest⟩
    have ⟨p, at_i⟩ := at_place lt
    exact ⟨_, .older at_i (by omega)⟩

theorem exists_latest (pos : 0 < h.length) : ∃ p, h.latest = some p :=
  ⟨_, List.getLast?_eq_some_getLast (List.ne_nil_of_length_pos pos)⟩

theorem getElem?_of_latest (latest : h.latest = some p) (count : h.length = i + 1) :
    h.packages[i]? = some p := by
  rw [History.latest, List.getLast?_eq_getElem?, ← length, count] at latest
  exact latest

theorem previous_eq (at_i : h.packages[i]? = some p) (count : h.length = i + 2) :
    h.previous = some p := by
  have last : h.packages.dropLast.length - 1 = i := by
    rw [List.length_dropLast, ← length, count]
    rfl
  have lt : i < h.packages.length - 1 := by
    rw [← length, count]
    omega
  rw [previous, List.getLast?_eq_getElem?, last, List.getElem?_dropLast, if_pos lt, at_i]

theorem answered_of_refused (latest : h.latest = some current)
    (refused : h.rollbackTarget deployment current target = .error e) :
    h.answered (h.rollback deployment target) = (.error e, h) := by
  rw [rollback, latest]
  simp only [Option.elim_some, ok_bind, refused]
  rfl

theorem answered_of_target (cg : h.Contiguous) (fits : h.length < Label.maxNumber)
    (latest : h.latest = some current)
    (meant : h.rollbackTarget deployment current target = .ok p) :
    h.answered (h.rollback deployment target) = (.ok (h.restored p), ⟨h.packages ++ [h.restored p]⟩) := by
  rw [rollback, latest]
  simp only [Option.elim_some, ok_bind, meant, append, cg.nextLabel fits]
  rfl

theorem answered_of_rolledBack (cg : h.Contiguous) (fits : h.length < Label.maxNumber)
    (told : h.RolledBack deployment target a) : h.answered (h.rollback deployment target) = a := by
  cases told
  case nothing count =>
    obtain rfl : h = empty := History.ext (List.length_eq_zero_iff.mp count)
    rfl
  case single count =>
    have ⟨p, eq⟩ := List.length_eq_one_iff.mp count
    obtain rfl : h = ⟨[p]⟩ := History.ext eq
    rfl
  case previous at_i count =>
    have ⟨current, latest⟩ := h.exists_latest (by omega)
    refine answered_of_target cg fits latest ?_
    rw [rollbackTarget, previous_eq at_i count]
    rfl
  case newest i count =>
    have ⟨current, latest⟩ := h.exists_latest (by omega)
    refine answered_of_refused latest ?_
    rw [rollbackTarget, cg.find_eq (getElem?_of_latest latest count)]
    exact if_pos rfl
  case older i p at_i lt =>
    have ⟨current, latest⟩ := h.exists_latest (by omega)
    have ne : p.label ≠ current.label := by
      rw [cg.label_eq at_i, cg.label_latest latest, ne_eq, Label.ofNumber_inj]
      omega
    refine answered_of_target cg fits latest ?_
    rw [rollbackTarget, cg.find_eq at_i]
    exact if_neg ne
  case unknown pos ne =>
    have ⟨current, latest⟩ := h.exists_latest (by omega)
    refine answered_of_refused latest ?_
    rw [rollbackTarget, cg.find_eq_none ne]

theorem rollback_iff (cg : h.Contiguous) (fits : h.length < Label.maxNumber) :
    h.answered (h.rollback deployment target) = a ↔ h.RolledBack deployment target a := by
  have ⟨b, told⟩ := h.exists_rolledBack deployment target
  constructor
  case mp =>
    intro same
    exact same ▸ answered_of_rolledBack cg fits told ▸ told
  case mpr => exact answered_of_rolledBack cg fits

theorem ok_of_answered {α : Type} {x : Except ReleaseError (α × History)} {b : α}
    (answered : h.answered x = (.ok b, h')) : x = .ok (b, h') := by
  cases x with
  | error => cases answered
  | ok => cases answered; rfl

theorem exists_rollback (deployment : Name) (cg : h.Contiguous) (fits : h.length < Label.maxNumber)
    (two : 2 ≤ h.length) : ∃ p h', h.rollback deployment none = .ok (p, h') ∧ h.Appends p h' := by
  have lt : h.length - 2 < h.packages.length := Nat.sub_lt_of_pos_le (by decide) two
  have told : h.RolledBack deployment none _ := .previous (List.getElem?_eq_getElem lt) (by omega)
  have ok := ok_of_answered (answered_of_rolledBack cg fits told)
  have ⟨_, _, _, _, _, _, appends⟩ := rollback_eq_ok.mp ok
  exact ⟨_, _, ok, appends⟩

-- After a rollback the package before the newest is the one that was the newest.
theorem latest_of_rollbacks (ok : h.rollback deployment none = .ok (p, h'))
    (ok' : h'.rollback deployment none = .ok (p', h'')) :
    ∃ q, h.latest = some q ∧ h''.latest = some { q with label := p'.label, method := .rollback } := by
  have ⟨_, _, _, _, _, _, appends⟩ := rollback_eq_ok.mp ok
  have ⟨_, q, _, copied, _, copy, appends'⟩ := rollback_eq_ok.mp ok'
  have was_latest : h.latest = some q := by
    simpa [History.previous, History.latest, appends.packages] using copied
  refine ⟨q, was_latest, ?_⟩
  calc
    h''.latest = some (p'.toCandidate.labelled p'.label) := appends'.latest
    _ = some { q with label := p'.label, method := .rollback } := by
      rw [copy]
      rfl

-- A rollback is answered by what the labels count, and two of them lead back to the newest package.
theorem rollback_answered (calls : List Call) (deployment : Name)
    (fits : (empty.run calls).length + 2 < 2 ^ 64) :
    let h := empty.run calls
    (∀ target a, h.answered (h.rollback deployment target) = a ↔ h.RolledBack deployment target a) ∧
    (2 ≤ h.length → ∃ p h' p' h'', h.rollback deployment none = .ok (p, h') ∧
      h'.rollback deployment none = .ok (p', h'')) ∧
    ∀ p h' p' h'', h.rollback deployment none = .ok (p, h') → h'.rollback deployment none = .ok (p', h'') →
      ∃ q, h.latest = some q ∧ h''.latest = some { q with label := p'.label, method := .rollback } := by
  intro h
  have cg : h.Contiguous := run_contiguous calls
  change h.length + 2 < 2 ^ 64 at fits
  have fits : h.length + 1 < Label.maxNumber := by
    rw [Label.maxNumber, UInt64.size]
    omega
  refine ⟨fun target a => rollback_iff cg (by omega), fun two => ?_, fun p h' p' h'' => latest_of_rollbacks⟩
  have ⟨p, h', ok, appends⟩ := exists_rollback deployment cg (by omega) two
  have length : h'.length = h.length + 1 := by simp [History.length, appends.packages]
  have ⟨p', h'', ok', _⟩ := exists_rollback deployment (cg.append appends) (by omega) (by omega)
  exact ⟨p, h', p', h'', ok, ok'⟩

-- The older package has been patched since its release, and comes back as the patch has left it.
theorem rollback_answered_patched :
    let one : VersionRange := ⟨"1.0.0", by decide, by decide⟩
    let staging : Name := ⟨"Staging", by decide⟩
    let calls : List Call := [
      .release "a" 1 0 one {},
      .release "b" 1 0 one { rollout := some 50 },
      .patch staging { label := some ⟨"v1"⟩, description := some "old", disabled := some true }]
    let h := empty.run calls
    let old : Package := {
      Package.plain "v1" with version := one, hash := "a", description := some "old", disabled := true }
    h.length + 2 < 2 ^ 64 ∧
      h.answered (h.rollback staging none) = (.ok (h.restored old), ⟨h.packages ++ [h.restored old]⟩) ∧
      h.answered (h.rollback staging (some ⟨"v1"⟩)) =
        (.ok (h.restored old), ⟨h.packages ++ [h.restored old]⟩) ∧
      h.answered (h.rollback staging (some ⟨"v2"⟩)) = (.error (.rollbackToCurrent ⟨"v2"⟩), h) ∧
      h.answered (h.rollback staging (some ⟨"v02"⟩)) =
        (.error (.rollbackLabelNotFound ⟨"v02"⟩ staging), h) ∧
      ∃ p h' p' h'', h.rollback staging none = .ok (p, h') ∧ h'.rollback staging none = .ok (p', h'') ∧
        ∃ q, h.latest = some q ∧ h''.latest = some { q with label := p'.label, method := .rollback } := by
  intro one staging calls h old
  have count : h.length = 2 := by decide
  have fits : h.length + 2 < 2 ^ 64 := by simp [count]
  have first : h.packages[0]? = some old := by decide
  have ⟨told, twice, back⟩ := rollback_answered calls staging fits
  have ⟨p, h', p', h'', ok, ok'⟩ := twice (Nat.le_of_eq count.symm)
  refine ⟨fits, ?_, ?_, ?_, ?_, p, h', p', h'', ok, ok', back p h' p' h'' ok ok'⟩
  · exact (told _ _).mpr (.previous first count)
  · exact (told _ _).mpr (.older first (Nat.lt_of_lt_of_eq (by decide) count.symm))
  · exact (told _ _).mpr (.newest count)
  · exact (told _ _).mpr (.unknown (Nat.lt_of_lt_of_eq (by decide) count.symm) (by decide))

end AirRelease.History
