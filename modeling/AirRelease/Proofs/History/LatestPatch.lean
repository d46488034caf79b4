import AirRelease.Proofs.History.Patching

namespace AirRelease.History

variable {h h' : History} {o : PatchOptions} {p first current : Package} {deployment : Name}
variable {older before after : List Package}

-- What a patch answers comes of the package that it is meant for, and stands where the first package
-- of that label was.
theorem patch_overwrites (ok : h.patch deployment o = .ok (p, h')) :
    ∃ target first before after, o.label.elim h.latest h.find = some target ∧ o.Yields target p ∧
      h.find target.label = some first ∧ h.packages = before ++ first :: after ∧
      (∀ q ∈ before, q.label ≠ target.label) ∧ h'.packages = before ++ p :: after := by
  have rules := firstOf_patchRules deployment h o
  rw [ok] at rules
  have ⟨target, meant, yields⟩ := yields_of_firstOf rules
  have ⟨_, _, _, _, _, _, _, _, replaced⟩ := patch_eq_ok.mp ok
  have ⟨first, found⟩ := Option.isSome_iff_exists.mp (replace_eq_ok.mp replaced).1
  have same : first.label = p.label := by simpa using List.find?_some found
  have ⟨before, after, split, split', _, unlike⟩ := split_of_patch found same.symm replaced
  exact ⟨target, first, before, after, meant, yields, yields.label ▸ found, split,
    yields.label ▸ unlike, split'⟩

-- A package of a history is the newest one or stands before it.
theorem newest_or_older (split : older ++ [current] = before ++ first :: after) :
    (after = [] ∧ older = before) ∨ ∃ rest, after = rest ++ [current] ∧ older = before ++ first :: rest := by
  cases List.eq_nil_or_concat after
  case inl nil =>
    rw [nil] at split
    have ⟨kept, _⟩ := List.append_inj' split rfl
    exact .inl ⟨nil, kept⟩
  case inr concat =>
    have ⟨rest, last, eq⟩ := concat
    rw [List.concat_eq_append] at eq
    have assoc : before ++ first :: after = (before ++ first :: rest) ++ [last] := by simp [eq]
    have ⟨kept, newest⟩ := List.append_inj' (split.trans assoc) rfl
    exact .inr ⟨rest, List.singleton_inj.mp newest ▸ eq, kept⟩

-- The answer takes the place of the newest package if no other one has its label, and otherwise only if
-- nothing changes.
theorem rewrites_latest_iff (unlabelled : o.label = none) (ok : h.patch deployment o = .ok (p, h')) :
    ∃ older current, h.packages = older ++ [current] ∧ o.Yields current p ∧
      (h'.packages = older ++ [p] ↔
        (∀ q ∈ older, q.label ≠ current.label) ∨ p = current ∧ h.find current.label = some current) ∧
      ∃ before first after, h.packages = before ++ first :: after ∧ first.label = current.label ∧
        (∀ q ∈ before, q.label ≠ current.label) ∧ h'.packages = before ++ p :: after := by
  have ⟨current, first, before, after, meant, yields, found, split, unlike, split'⟩ :=
    patch_overwrites ok
  have latest : h.latest = some current := by rwa [unlabelled] at meant
  have ⟨older, concat⟩ := List.getLast?_eq_some_iff.mp latest
  have same : first.label = current.label := by simpa using List.find?_some found
  refine ⟨older, current, concat, yields, ?_, before, first, after, split, same, unlike, split'⟩
  cases newest_or_older (concat.symm.trans split)
  case inl newest =>
    have ⟨nil, kept⟩ := newest
    exact iff_of_true (by rw [split', nil, kept]) (.inl (kept ▸ unlike))
  case inr earlier =>
    have ⟨rest, eq, kept⟩ := earlier
    have repeated : ¬∀ q ∈ older, q.label ≠ current.label :=
      fun others => others first (by simp [kept]) same
    have same_iff : h'.packages = older ++ [p] ↔ p = first ∧ current = p := by
      simp [split', eq, kept]
    rw [same_iff, or_iff_right repeated, found, Option.some.injEq]
    constructor
    case mp => exact fun ⟨first_eq, current_eq⟩ => ⟨current_eq.symm, first_eq ▸ current_eq.symm⟩
    case mpr => exact fun ⟨current_eq, first_eq⟩ => ⟨current_eq.trans first_eq.symm, current_eq.symm⟩

-- A history that was changed by hand: two packages have one label.
def doubled : History :=
  ⟨[.plain "v1", { Package.plain "v1" with hash := "b" }]⟩

-- A patch for all of the history overwrites the older package with the content of the newer one.
theorem rewrites_latest_iff_doubled :
    let o : PatchOptions := { description := some "fixed" }
    let p : Package := { Package.plain "v1" with hash := "b", description := some "fixed" }
    let staging : Name := ⟨"Staging", by decide⟩
    let h' : History := ⟨[p, { Package.plain "v1" with hash := "b" }]⟩
    o.label = none ∧ doubled.patch staging o = .ok (p, h') ∧
      ∃ older current, doubled.packages = older ++ [current] ∧ o.Yields current p ∧
        (h'.packages = older ++ [p] ↔ (∀ q ∈ older, q.label ≠ current.label) ∨
          p = current ∧ doubled.find current.label = some current) ∧
        ∃ before first after, doubled.packages = before ++ first :: after ∧
          first.label = current.label ∧ (∀ q ∈ before, q.label ≠ current.label) ∧
          h'.packages = before ++ p :: after := by
  intro o p staging h'
  have ok : doubled.patch staging o = .ok (p, h') := rfl
  exact ⟨rfl, ok, rewrites_latest_iff rfl ok⟩

theorem not_latest_of_patch :
    ¬∀ (deployment : Name) (h : History) (o : PatchOptions) (p : Package) (h' : History),
      o.label = none → h.patch deployment o = .ok (p, h') →
      h'.packages = h.packages.dropLast ++ [p] := by
  intro only
  have changed := only ⟨"Staging", by decide⟩ doubled { description := some "fixed" } _ _ rfl rfl
  exact absurd changed (by decide)

end AirRelease.History
