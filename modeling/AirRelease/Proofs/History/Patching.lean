import AirRelease.Proofs.History.Growth
import AirRelease.Proofs.Rules

namespace AirRelease

section Checks

variable {text : Option String} {value : Option Int} {p : Package}

theorem VersionRange.override_cases (text : Option String) :
    (∃ t, text = some t ∧ (∀ v, ofText t ≠ .ok v) ∧ override text = .error (.badVersion t)) ∨
    (∀ t, text = some t → ∃ v, ofText t = .ok v) ∧ ∃ v, override text = .ok v := by
  cases text with
  | none => exact .inr ⟨nofun, none, rfl⟩
  | some t =>
    cases read : ofText t with
    | ok v =>
      refine .inr ⟨fun _ same => Option.some.inj same ▸ ⟨v, read⟩, some v, ?_⟩
      simp [override, read, Except.map]
    | error e =>
      have same : e = ⟨t⟩ := by
        simp only [ofText] at read
        split at read
        · cases read
        · exact (Except.error.inj read).symm
      refine .inl ⟨t, rfl, by simp [read], ?_⟩
      simp [override, read, same, Except.map, ReleaseError.ofVersion]

-- A rollout has to be a percentage even if there is nothing to patch.
def Rollout.checked (value : Option Int) : Except ReleaseError (Option Rollout) :=
  value.mapM fun value => (ofInt value).mapError .ofRollout

theorem Rollout.checked_cases (value : Option Int) :
    (∃ n, value = some n ∧ ¬(1 ≤ n ∧ n ≤ 100) ∧ checked value = .error (.badRollout n)) ∨
    (∀ n, value = some n → 1 ≤ n ∧ n ≤ 100) ∧ ∃ r, checked value = .ok r := by
  cases value with
  | none => exact .inr ⟨nofun, none, rfl⟩
  | some n =>
    by_cases ranged : 1 ≤ n ∧ n ≤ 100
    case pos =>
      refine .inr ⟨fun _ same => Option.some.inj same ▸ ranged, ?_⟩
      simp [checked, ofInt, ranged, Except.map]
    case neg =>
      refine .inl ⟨n, rfl, ranged, ?_⟩
      simp [checked, ofInt, ranged, Except.map, ReleaseError.ofRollout]

theorem Rollout.forPatch_of_ranged {n : Int} (ranged : 1 ≤ n ∧ n ≤ 100) :
    ∃ r : Rollout, r.percent = n ∧ forPatch p n = if p.rollout.percent = 100 then .error .alreadyFull
      else if n ≤ p.rollout.percent then .error (.mustIncrease p.rollout)
      else .ok r := by
  refine ⟨⟨n.toNat, by omega, by omega⟩, Int.toNat_of_nonneg (by omega), ?_⟩
  have le_iff : n.toNat ≤ p.rollout.percent ↔ n ≤ p.rollout.percent := by omega
  rw [forPatch, ofInt, dif_pos ranged]
  simp only [← le_iff]
  rfl

theorem Rollout.raised_cases (p : Package) (ranged : ∀ n, value = some n → 1 ≤ n ∧ n ≤ 100) :
    (value.isSome ∧ p.rollout.percent = 100 ∧ raised p value = .error .rolloutAlreadyFull) ∨
    (∃ n, value = some n ∧ n ≤ p.rollout.percent ∧ ¬p.rollout.percent = 100 ∧
      raised p value = .error (.rolloutMustIncrease p.rollout)) ∨
    (∀ n, value = some n → ¬p.rollout.percent = 100 ∧ p.rollout.percent < n) ∧
      ∃ r, raised p value = .ok r ∧ ((r.getD p.rollout).percent : Int) = value.getD p.rollout.percent := by
  cases value with
  | none => exact .inr (.inr ⟨nofun, none, rfl, rfl⟩)
  | some n =>
    have ranged := ranged n rfl
    have raised_some : raised p (some n) = ((forPatch p n).mapError .ofRollout).map some := rfl
    obtain ⟨r, percent, raised⟩ := forPatch_of_ranged (p := p) ranged
    rw [raised_some, raised]
    by_cases full : p.rollout.percent = 100
    case pos => exact .inl ⟨rfl, full, by rw [if_pos full]; rfl⟩
    by_cases low : n ≤ p.rollout.percent
    case pos => exact .inr (.inl ⟨n, rfl, low, full, by rw [if_neg full, if_pos low]; rfl⟩)
    rw [if_neg full, if_neg low]
    refine .inr (.inr ⟨fun _ same => ?_, _, rfl, percent⟩)
    cases same
    exact ⟨full, by omega⟩

end Checks

-- The package that comes of a patch has what the patch gives, and all else of the old package.
structure PatchOptions.Yields (o : PatchOptions) (p q : Package) : Prop where
  label : q.label = p.label
  hash : q.hash = p.hash
  size : q.size = p.size
  uploadTime : q.uploadTime = p.uploadTime
  method : q.method = p.method
  description : q.description = o.description.or p.description
  disabled : q.disabled = o.disabled.getD p.disabled
  mandatory : q.mandatory = o.mandatory.getD p.mandatory
  rollout : (q.rollout.percent : Int) = o.rollout.getD p.rollout.percent
  version : o.version.elim (q.version = p.version) (VersionRange.ofText · = .ok q.version)

namespace PatchOptions

variable {o : PatchOptions} {p q : Package}

theorem Yields.unique {q' : Package} (yields : o.Yields p q) (yields' : o.Yields p q') :
    q = q' := by
  have rollout : q.rollout = q'.rollout :=
    Rollout.ext (Int.ofNat.inj (yields.rollout.trans yields'.rollout.symm))
  have version : q.version = q'.version := by
    have version := yields.version
    have version' := yields'.version
    cases given : o.version with
    | none =>
      rw [given] at version version'
      exact version.trans version'.symm
    | some text =>
      rw [given] at version version'
      exact Except.ok.inj (version.symm.trans version')
  rcases yields with ⟨label, hash, size, uploadTime, method, description, disabled, mandatory, _, _⟩
  rcases yields' with ⟨label', hash', size', uploadTime', method', description', disabled', mandatory', _, _⟩
  rcases q with ⟨⟨⟩, _⟩
  rcases q' with ⟨⟨⟩, _⟩
  simp_all only

theorem yields_applied (o : PatchOptions) {v : Option VersionRange} {r : Option Rollout}
    (version : VersionRange.override o.version = .ok v)
    (rollout : ((r.getD p.rollout).percent : Int) = o.rollout.getD p.rollout.percent) :
    o.Yields p (o.applied p v r) := by
  refine ⟨rfl, rfl, rfl, rfl, rfl, rfl, rfl, rfl, rollout, ?_⟩
  cases given : o.version with
  | none =>
    rw [given] at version
    cases version
    rfl
  | some text =>
    rw [given] at version
    simp only [VersionRange.override, Option.mapM_some, fmap_eq_map, map_eq_ok, mapError_eq_ok] at version
    obtain ⟨v, read, rfl⟩ := version
    exact read

end PatchOptions

namespace History

variable {h h' : History} {o : PatchOptions} {p q : Package} {deployment : Name}

-- The reasons to refuse a patch, in their order.
def patchRules (deployment : Name) (h : History) (o : PatchOptions) :
    List (Except ReleaseError Package → Prop) := [
  fun a => ¬o.HasChanges ∧ a = .error .nothingToPatch,
  fun a => ∃ text, o.version = some text ∧ (∀ v, VersionRange.ofText text ≠ .ok v) ∧
    a = .error (.badVersion text),
  fun a => ∃ value, o.rollout = some value ∧ ¬(1 ≤ value ∧ value ≤ 100) ∧
    a = .error (.badRollout value),
  fun a => h.packages = [] ∧ a = .error (.noReleases deployment),
  fun a => ∃ l, o.label = some l ∧ (∀ p ∈ h.packages, p.label ≠ l) ∧
    a = .error (.patchLabelNotFound l deployment),
  fun a => ∃ p, o.label.elim h.latest h.find = some p ∧ o.rollout.isSome ∧ p.rollout.percent = 100 ∧
    a = .error .rolloutAlreadyFull,
  fun a => ∃ p value, o.label.elim h.latest h.find = some p ∧ o.rollout = some value ∧
    value ≤ p.rollout.percent ∧ a = .error (.rolloutMustIncrease p.rollout),
  fun a => ∃ p q, o.label.elim h.latest h.find = some p ∧ o.Yields p q ∧ a = .ok q]

theorem single_patchRules (rule) (mem : rule ∈ patchRules deployment h o) (a b) (gives : rule a)
    (gives' : rule b) : a = b := by
  simp only [patchRules, List.mem_cons, List.not_mem_nil, or_false] at mem
  rcases mem with rfl | rfl | rfl | rfl | rfl | rfl | rfl | rfl
  case inl | inr.inr.inr.inl => exact gives.2.trans gives'.2.symm
  case inr.inl | inr.inr.inl | inr.inr.inr.inr.inl =>
    obtain ⟨_, given, _, rfl⟩ := gives
    obtain ⟨_, given', _, rfl⟩ := gives'
    cases given.symm.trans given'
    rfl
  case inr.inr.inr.inr.inr.inl =>
    obtain ⟨_, _, _, _, rfl⟩ := gives
    obtain ⟨_, _, _, _, rfl⟩ := gives'
    rfl
  case inr.inr.inr.inr.inr.inr.inl =>
    obtain ⟨_, _, target, _, _, rfl⟩ := gives
    obtain ⟨_, _, target', _, _, rfl⟩ := gives'
    cases target.symm.trans target'
    rfl
  case inr.inr.inr.inr.inr.inr.inr =>
    obtain ⟨_, _, target, yields, rfl⟩ := gives
    obtain ⟨_, _, target', yields', rfl⟩ := gives'
    cases target.symm.trans target'
    rw [yields.unique yields']

theorem patchTarget_cases (deployment : Name) (h : History) (target : Option Label) :
    (h.packages = [] ∧ h.patchTarget deployment target = .error (.noReleases deployment)) ∨
    (¬h.packages = [] ∧ ∃ l, target = some l ∧ (∀ p ∈ h.packages, p.label ≠ l) ∧
      h.patchTarget deployment target = .error (.patchLabelNotFound l deployment)) ∨
    ∃ p, target.elim h.latest h.find = some p ∧ h.patchTarget deployment target = .ok p := by
  by_cases empty : h.packages = []
  case pos =>
    obtain rfl : h = .empty := History.ext empty
    cases target <;> exact .inl ⟨rfl, rfl⟩
  case neg =>
    right
    cases target with
    | none =>
      cases latest : h.latest with
      | none => exact absurd (List.getLast?_eq_none_iff.mp latest) empty
      | some p => exact .inr ⟨p, rfl, by simp [patchTarget, latest]⟩
    | some l =>
      cases found : h.find l with
      | none =>
        have absent : ∀ p ∈ h.packages, p.label ≠ l := by simpa [find] using found
        refine .inl ⟨empty, l, rfl, absent, ?_⟩
        have ne : ¬h = .empty := fun same => empty (congrArg packages same)
        simp [patchTarget, found, ne]
      | some p => exact .inr ⟨p, found, by simp [patchTarget, found]⟩

theorem patch_eq (deployment : Name) (h : History) (o : PatchOptions) (changes : o.HasChanges) :
    h.patch deployment o = do
      let v ← VersionRange.override o.version
      let _ ← Rollout.checked o.rollout
      let p ← h.patchTarget deployment o.label
      let r ← Rollout.raised p o.rollout
      let h' ← (h.replace p.label (o.applied p v r)).mapError ReleaseError.ofHistory
      return (o.applied p v r, h') := by
  rw [patch, if_neg (fun missing => missing changes)]
  simp only [Option.orElse_eq_orElse, Option.orElse_eq_or]
  rfl

-- The label of the package that is patched is looked up again, and is found.
theorem replace_of_target (target : o.label.elim h.latest h.find = some p) (q : Package) :
    ∃ h', h.replace p.label q = .ok h' := by
  have found : (h.find p.label).isSome := by
    rw [find, List.find?_isSome]
    exact ⟨p, mem_of_target target, decide_eq_true rfl⟩
  exact ⟨_, replace_eq_ok.mpr ⟨found, rfl⟩⟩

theorem firstOf_patchRules (deployment : Name) (h : History) (o : PatchOptions) :
    FirstOf (patchRules deployment h o) (h.answered (h.patch deployment o)).1 := by
  by_cases changes : o.HasChanges
  case neg =>
    refine .applies ⟨changes, ?_⟩
    rw [patch, if_pos changes]
    rfl
  rw [patch_eq deployment h o changes]
  refine .passes ?_ ?_
  · rintro _ ⟨nothing, _⟩
    exact nothing changes
  rcases VersionRange.override_cases o.version with ⟨text, given, bad, refused⟩ | ⟨readable, v, version⟩
  case inl =>
    refine .applies ⟨text, given, bad, ?_⟩
    rw [refused]
    rfl
  rw [version, ok_bind]
  refine .passes ?_ ?_
  · rintro _ ⟨text, given, bad, _⟩
    exact (readable text given).elim bad
  rcases Rollout.checked_cases o.rollout with ⟨value, given, out, refused⟩ | ⟨ranged, _, checked⟩
  case inl =>
    refine .applies ⟨value, given, out, ?_⟩
    rw [refused]
    rfl
  rw [checked, ok_bind]
  refine .passes ?_ ?_
  · rintro _ ⟨value, given, out, _⟩
    exact out (ranged value given)
  rcases h.patchTarget_cases deployment o.label with
    ⟨empty, refused⟩ | ⟨nonempty, l, given, absent, refused⟩ | ⟨p, target, found⟩
  case inl =>
    refine .applies ⟨empty, ?_⟩
    rw [refused]
    rfl
  case inr.inl =>
    refine .passes ?_ (.applies ⟨l, given, absent, ?_⟩)
    · rintro _ ⟨empty, _⟩
      exact nonempty empty
    · rw [refused]
      rfl
  rw [found, ok_bind]
  refine .passes ?_ (.passes ?_ ?_)
  · rintro _ ⟨empty, _⟩
    exact List.ne_nil_of_mem (mem_of_target target) empty
  · rintro _ ⟨l, given, absent, _⟩
    have found : h.find l = some p := by rwa [given] at target
    have same : p.label = l := by simpa using List.find?_some found
    exact absent p (List.mem_of_find?_eq_some found) same
  rcases Rollout.raised_cases p ranged with
    ⟨given, full, refused⟩ | ⟨value, given, low, partly, refused⟩ | ⟨rises, r, raised, percent⟩
  case inl =>
    refine .applies ⟨p, target, given, full, ?_⟩
    rw [refused]
    rfl
  case inr.inl =>
    refine .passes ?_ (.applies ⟨p, value, target, given, low, ?_⟩)
    · rintro _ ⟨q, target', _, full, _⟩
      cases target.symm.trans target'
      exact partly full
    · rw [refused]
      rfl
  case inr.inr =>
    obtain ⟨h', replaced⟩ := replace_of_target target (o.applied p v r)
    refine .passes ?_ (.passes ?_ (.applies
      ⟨p, o.applied p v r, target, o.yields_applied version percent, ?_⟩))
    · rintro _ ⟨q, target', given, full, _⟩
      obtain ⟨value, given⟩ := Option.isSome_iff_exists.mp given
      cases target.symm.trans target'
      exact (rises value given).1 full
    · rintro _ ⟨q, value, target', given, low, _⟩
      cases target.symm.trans target'
      have := (rises value given).2
      omega
    · rw [raised, ok_bind, replaced]
      rfl

theorem ne_corruptHistory_of_firstOf {e : ReleaseError} (first : FirstOf (patchRules deployment h o) (.error e))
    (l : Label) : e ≠ .corruptHistory l := by
  obtain ⟨rule, mem, gives⟩ := first.exists_rule
  simp only [patchRules, List.mem_cons, List.not_mem_nil, or_false] at mem
  rcases mem with rfl | rfl | rfl | rfl | rfl | rfl | rfl | rfl <;> grind

theorem yields_of_firstOf (first : FirstOf (patchRules deployment h o) (.ok p)) :
    ∃ q, o.label.elim h.latest h.find = some q ∧ o.Yields q p := by
  obtain ⟨rule, mem, gives⟩ := first.exists_rule
  simp only [patchRules, List.mem_cons, List.not_mem_nil, or_false] at mem
  rcases mem with rfl | rfl | rfl | rfl | rfl | rfl | rfl | rfl <;> grind

-- Only the first package of the label is replaced.
theorem split_of_patch {l : Label} (target : h.find l = some q) (same : p.label = q.label)
    (replaced : h.replace p.label p = .ok h') :
    ∃ before after, h.packages = before ++ q :: after ∧ h'.packages = before ++ p :: after ∧
      q.label = l ∧ ∀ s ∈ before, s.label ≠ l := by
  have label : q.label = l := by simpa using List.find?_some target
  obtain rfl : p.label = l := same.trans label
  obtain ⟨before, after, split, changed, first⟩ := changeFirst_split target fun _ => p
  obtain ⟨_, rfl⟩ := replace_eq_ok.mp replaced
  exact ⟨before, after, split, changed, label, by simpa using first⟩

-- A patch gets the answer of the first rule that applies. If a label is given, only its first package
-- is changed, and only by a patch that goes through.
theorem patch_answered (deployment : Name) (h : History) (o : PatchOptions) :
    (∀ a, (h.answered (h.patch deployment o)).1 = a ↔ FirstOf (patchRules deployment h o) a) ∧
    (∀ e, (h.answered (h.patch deployment o)).1 = .error e →
      (h.answered (h.patch deployment o)).2 = h ∧ ∀ l, e ≠ .corruptHistory l) ∧
    ∀ l p, o.label = some l → (h.answered (h.patch deployment o)).1 = .ok p →
      ∃ before target after, h.packages = before ++ target :: after ∧ target.label = l ∧
        (∀ q ∈ before, q.label ≠ l) ∧ o.Yields target p ∧
        (h.answered (h.patch deployment o)).2.packages = before ++ p :: after := by
  have first := firstOf_patchRules deployment h o
  refine ⟨fun a => first.eq_iff single_patchRules, fun e refused => ?_, fun l p given ok => ?_⟩
  case refine_1 =>
    rw [refused] at first
    cases result : h.patch deployment o with
    | error => exact ⟨rfl, ne_corruptHistory_of_firstOf first⟩
    | ok => exact nomatch result ▸ refused
  case refine_2 =>
    rw [ok] at first
    obtain ⟨q, target, yields⟩ := yields_of_firstOf first
    rw [given] at target
    cases result : h.patch deployment o with
    | error => exact nomatch result ▸ ok
    | ok r =>
      obtain ⟨p', h'⟩ := r
      obtain rfl : p' = p := Except.ok.inj (result ▸ ok)
      obtain ⟨_, _, _, _, _, _, _, _, replaced⟩ := patch_eq_ok.mp result
      obtain ⟨before, after, split, split', label, unlike⟩ := split_of_patch target yields.label replaced
      exact ⟨before, q, after, split, label, unlike, yields, split'⟩

-- The label is there twice, and the package that is patched is not the newest one.
theorem patch_answered_repeated :
    let p : Package := { Package.plain "v2" with rollout := ⟨20, by decide, by decide⟩ }
    let h : History := ⟨[.plain "v1", p, { p with disabled := true }]⟩
    let o : PatchOptions := { label := some ⟨"v2"⟩, mandatory := some true, rollout := some 30 }
    let q : Package := { p with mandatory := true, rollout := ⟨30, by decide, by decide⟩ }
    let low : PatchOptions := { o with rollout := some 20 }
    let staging : Name := ⟨"Staging", by decide⟩
    (h.answered (h.patch staging o)).1 = .ok q ∧
      FirstOf (patchRules staging h o) (.ok q) ∧
      (∃ before target after, h.packages = before ++ target :: after ∧ target.label = ⟨"v2"⟩ ∧
        (∀ s ∈ before, s.label ≠ ⟨"v2"⟩) ∧ o.Yields target q ∧
        (h.answered (h.patch staging o)).2.packages = before ++ q :: after) ∧
      (h.answered (h.patch staging low)).1 = .error (.rolloutMustIncrease p.rollout) ∧
      (h.answered (h.patch staging low)).2 = h := by
  intro p h o q low staging
  have patched : (h.answered (h.patch staging o)).1 = .ok q := rfl
  have refused : (h.answered (h.patch staging low)).1 = .error (.rolloutMustIncrease p.rollout) := rfl
  have ⟨answer, _, changed⟩ := patch_answered staging h o
  have ⟨_, unchanged, _⟩ := patch_answered staging h low
  exact ⟨patched, (answer _).mp patched, changed _ q rfl patched, refused, (unchanged _ refused).1⟩

end History
end AirRelease
