import AirRelease.Proofs.History.LatestPatch

namespace AirRelease

section Repeated

variable {o : PatchOptions} {p q : Package}

-- Once a patch has been made, there is nothing left in it to change but the rollout.
theorem PatchOptions.Yields.again (yields : o.Yields p q) (unraised : o.rollout = none) : o.Yields q q := by
  have ⟨_, _, _, _, _, description, disabled, mandatory, _, version⟩ := yields
  refine ⟨rfl, rfl, rfl, rfl, rfl, ?_, ?_, ?_, by simp [unraised], ?_⟩
  case refine_1 => cases given : o.description <;> simp [description, given]
  case refine_2 => cases given : o.disabled <;> simp [disabled, given]
  case refine_3 => cases given : o.mandatory <;> simp [mandatory, given]
  case refine_4 =>
    cases given : o.version with
    | none => rfl
    | some text => rwa [given] at version

-- A rollout cannot be raised to what it is.
theorem Rollout.raised_again {n : Int} (percent : (p.rollout.percent : Int) = n) :
    raised p (some n) =
      .error (if p.rollout.IsFull then .rolloutAlreadyFull else .rolloutMustIncrease p.rollout) := by
  have refused : forPatch p n =
      .error (if p.rollout.IsFull then .alreadyFull else .mustIncrease p.rollout) := by
    rw [← percent, forPatch, ofInt_percent, ok_bind, if_pos (Nat.le_refl _)]
    split <;> rfl
  have raised_some : raised p (some n) = ((forPatch p n).mapError .ofRollout).map some := rfl
  rw [raised_some, refused]
  split <;> rfl

end Repeated

namespace History

variable {h h' h'' : History} {o : PatchOptions} {p p' : Package} {before after : List Package}
  {deployment : Name}

theorem find_of_first (split : h.packages = before ++ p :: after) (unlike : ∀ q ∈ before, q.label ≠ p.label) :
    h.find p.label = some p := by
  have passed : before.find? (·.label = p.label) = none := by simpa using unlike
  rw [find, split, List.find?_append, passed]
  simp

theorem latest_of_concat (split : h.packages = before ++ [p]) : h.latest = some p := by
  rw [latest, split, List.getLast?_concat]

-- The package that a second patch is meant for.
theorem target_of_patched (ok : h.patch deployment o = .ok (p, h')) :
    o.label.elim h'.latest h'.find = some p ∨
      ¬h.labels.Nodup ∧ o.label.elim h'.latest h'.find = o.label.elim h.latest h.find := by
  have ⟨target, first, before, after, meant, yields, found, split, unlike, split'⟩ := patch_overwrites ok
  cases given : o.label with
  | some l =>
    rw [given] at meant
    have label : p.label = l := yields.label.trans (by simpa using List.find?_some meant)
    exact .inl (label ▸ find_of_first split' (yields.label ▸ unlike))
  | none =>
    rw [given] at meant
    cases List.eq_nil_or_concat after
    case inl last => exact .inl (latest_of_concat (last ▸ split'))
    case inr concat =>
      have ⟨rest, newest, eq⟩ := concat
      rw [List.concat_eq_append] at eq
      have older : h.packages = (before ++ first :: rest) ++ [newest] := by simp [split, eq]
      have older' : h'.packages = (before ++ p :: rest) ++ [newest] := by simp [split', eq]
      have same : newest = target := Option.some.inj ((latest_of_concat older).symm.trans meant)
      refine .inr ⟨fun nodup => ?_, (latest_of_concat older').trans (latest_of_concat older).symm⟩
      -- The first package of the label is not the newest one.
      have label : first.label = newest.label := same ▸ by simpa using List.find?_some found
      rw [labels, older, List.map_append, List.nodup_append] at nodup
      exact nodup.2.2 newest.label (by simp [label]) newest.label (by simp) rfl

-- A second patch that goes through gives the same package and puts it where it is.
theorem same_of_patched (ok : h.patch deployment o = .ok (p, h'))
    (again : h'.patch deployment o = .ok (p', h'')) : p' = p ∧ h'' = h' := by
  have ⟨target, _, before, after, meant, yields, _, _, unlike, split'⟩ := patch_overwrites ok
  have ⟨target', first', _, _, meant', yields', found', split, _, split''⟩ := patch_overwrites again
  have same : p' = p ∧ target'.label = p.label := by
    cases target_of_patched ok
    case inl patched =>
      cases meant'.symm.trans patched
      have unraised : o.rollout = none := by
        have ⟨_, _, _, _, target, _, raised, _⟩ := patch_eq_ok.mp again
        cases target.symm.trans patched
        cases given : o.rollout with
        | none => rfl
        | some n =>
          have percent : (p.rollout.percent : Int) = n := by simpa [given] using yields.rollout
          rw [given, Rollout.raised_again percent] at raised
          cases raised
      exact ⟨yields'.unique (yields.again unraised), rfl⟩
    case inr repeated =>
      cases meant'.symm.trans (repeated.2.trans meant)
      exact ⟨yields'.unique yields, yields.label.symm⟩
  have first : first' = p := by
    rw [same.2, find_of_first split' (yields.label ▸ unlike)] at found'
    exact (Option.some.inj found').symm
  refine ⟨same.1, History.ext ?_⟩
  rw [split'', split, same.1, first]

-- What is answered to the second patch if it meets the package that the first one has left.
theorem patch_of_patched (ok : h.patch deployment o = .ok (p, h'))
    (patched : o.label.elim h'.latest h'.find = some p) :
    h'.patch deployment o =
      if o.rollout = none then .ok (p, h')
      else .error (if p.rollout.IsFull then .rolloutAlreadyFull else .rolloutMustIncrease p.rollout) := by
  have ⟨_, _, _, _, _, yields, _⟩ := patch_overwrites ok
  have ⟨changes, _, v, r, _, version, raised, _, _⟩ := patch_eq_ok.mp ok
  cases given : o.rollout with
  | none =>
    have raised' : Rollout.raised p o.rollout = .ok none := by rw [given]; rfl
    have ⟨h'', replaced⟩ := replace_of_target patched (o.applied p v none)
    have again : h'.patch deployment o = .ok (o.applied p v none, h'') :=
      patch_eq_ok.mpr ⟨changes, p, v, none, patched, version, raised', rfl, replaced⟩
    have ⟨same, same'⟩ := same_of_patched ok again
    rw [again, same, same', if_pos rfl]
  | some n =>
    have ⟨_, checked⟩ := Rollout.ranged_of_raised raised
    have percent : (p.rollout.percent : Int) = n := by simpa [given] using yields.rollout
    rw [patch_eq deployment h' o changes, version, Rollout.checked, checked,
      patchTarget_eq_ok.mpr patched, given, if_neg (Option.some_ne_none n)]
    simp only [ok_bind, Rollout.raised_again percent, error_bind]

-- The second of two equal patches leaves the history as the first one has left it. If labels do not
-- repeat, it gets the same answer when no rollout is asked for, and is refused otherwise.
theorem patch_twice (deployment : Name) (h : History) (o : PatchOptions) :
    let once := (h.answered (h.patch deployment o)).2
    (once.answered (once.patch deployment o)).2 = once ∧
      ∀ p, h.labels.Nodup → (h.answered (h.patch deployment o)).1 = .ok p →
        (once.answered (once.patch deployment o)).1 =
          if o.rollout = none then .ok p
          else .error (if p.rollout.IsFull then .rolloutAlreadyFull else .rolloutMustIncrease p.rollout) := by
  intro once
  cases ok : h.patch deployment o with
  | error e =>
    have same : once = h := by simp [once, ok, answered]
    rw [same, ok]
    exact ⟨rfl, fun _ _ accepted => nomatch accepted⟩
  | ok patched =>
    have ⟨q, h'⟩ := patched
    have same : once = h' := by simp [once, ok, answered]
    rw [same]
    constructor
    case left =>
      cases again : h'.patch deployment o with
      | error => rfl
      | ok => exact (same_of_patched ok again).2
    case right =>
      intro p nodup answer
      cases answer
      have target := (target_of_patched ok).resolve_right fun repeated => repeated.1 nodup
      rw [patch_of_patched ok target]
      split <;> rfl

-- A patch that asks for a rollout is refused the second time, the same one without it is not.
theorem patch_twice_raised :
    let p : Package := { Package.plain "v2" with rollout := ⟨20, by decide, by decide⟩ }
    let h : History := ⟨[.plain "v1", p]⟩
    let silent : PatchOptions := { label := some ⟨"v2"⟩, mandatory := some true }
    let raising : PatchOptions := { silent with rollout := some 30 }
    let q : Package := { p with mandatory := true }
    let q' : Package := { q with rollout := ⟨30, by decide, by decide⟩ }
    let staging : Name := ⟨"Staging", by decide⟩
    h.labels.Nodup ∧
      (h.answered (h.patch staging silent)).1 = .ok q ∧
      (History.answered ⟨[.plain "v1", q]⟩ (History.patch staging ⟨[.plain "v1", q]⟩ silent)).1 = .ok q ∧
      (h.answered (h.patch staging raising)).1 = .ok q' ∧
      (History.answered ⟨[.plain "v1", q']⟩ (History.patch staging ⟨[.plain "v1", q']⟩ raising)).1 =
        .error (.rolloutMustIncrease q'.rollout) := by
  intro p h silent raising q q' staging
  have nodup : h.labels.Nodup := by decide
  have accepted : (h.answered (h.patch staging silent)).1 = .ok q := rfl
  have accepted' : (h.answered (h.patch staging raising)).1 = .ok q' := rfl
  have ⟨_, answer⟩ := patch_twice staging h silent
  have ⟨_, answer'⟩ := patch_twice staging h raising
  exact ⟨nodup, accepted, answer q nodup accepted, accepted', answer' q' nodup accepted'⟩

end History
end AirRelease
