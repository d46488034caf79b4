import AirRelease.Proofs.Store.Storable

namespace AirRelease

-- The same content, by its fingerprint and size.
structure Package.Resembles (p q : Package) : Prop where
  hash : p.hash = q.hash
  size : p.size = q.size

namespace Package.Resembles

variable {p q s : Package}

theorem trans (h₁ : p.Resembles q) (h₂ : q.Resembles s) : p.Resembles s :=
  ⟨h₁.hash.trans h₂.hash, h₁.size.trans h₂.size⟩

theorem of_kept (kept : p.Kept q) : q.Resembles p :=
  ⟨kept.hash, kept.size⟩

end Package.Resembles

namespace History

-- Where a call takes the content of the package from that it appends.
inductive Supplies (h : History) : Call → Package → Prop
  | upload (method : p.method = .upload) (hash : p.hash = digest) (size : p.size = n) :
    Supplies h (.release digest n uploadTime version o) p
  | promote (there : q ∈ sourceHistory.packages) (copy : p.Resembles q) :
    Supplies h (.promote source sourceHistory o uploadTime) p
  | rollback (there : q ∈ h.packages) (copy : p.Resembles q) : Supplies h (.rollback deployment target) p

-- The package is an older one, patched at most, or it is the new one.
inductive Origin (h : History) (c : Call) (h' : History) (p : Package) : Prop
  | old (there : q ∈ h.packages) (kept : q.Kept p)
  | new (packages : h'.packages = h.packages ++ [p]) (supplies : h.Supplies c p)

variable {h h' : History} {p : Package} {c : Call}

theorem Origin.of_appends {p' : Package} (appends : h.Appends p' h') (supplies : h.Supplies c p')
    (mem : p ∈ h'.packages) : h.Origin c h' p := by
  have packages := appends.packages
  rw [packages, List.mem_append, List.mem_singleton] at mem
  rcases mem with there | rfl
  · exact .old there (.refl p)
  · exact .new packages supplies

theorem Origin.of_offered {candidate : Candidate} {rollout : Option Int} {allowDuplicate : Bool} {x : Outcome}
    (offered : h.Offered candidate rollout allowDuplicate x h')
    (supplies : ∀ (p : Package) (r : Rollout), p.toCandidate = { candidate with rollout := r } → h.Supplies c p)
    (mem : p ∈ h'.packages) : h.Origin c h' p := by
  cases offered
  case skipped => exact .old mem (.refl p)
  case released copy appends => exact .of_appends appends (supplies _ _ copy) mem

theorem Step.origin (s : Step h c h') (mem : p ∈ h'.packages) : h.Origin c h' p := by
  cases s
  case release offered =>
    refine .of_offered offered (fun p r copy => .upload ?_ ?_ ?_) mem
    all_goals rw [copy]; rfl
  case patch target _ rollout replaced =>
    rw [(replace_eq_ok.mp replaced).2] at mem
    have older : ∀ q ∈ h.packages, ∃ s ∈ h.packages, s.Kept q := fun q there => ⟨q, there, .refl q⟩
    obtain ⟨q, there, kept⟩ := forall_mem_changeFirst older
      (fun _ _ => ⟨_, mem_of_target target, PatchOptions.kept_applied _ _ rollout⟩) p mem
    exact .old there kept
  case promote copied _ offered =>
    have there := List.mem_reverse.mp (List.mem_of_find?_eq_some copied)
    refine .of_offered offered (fun p r copy => .promote there ⟨?_, ?_⟩) mem
    all_goals rw [copy]; rfl
  case rollback copied _ copy appends =>
    refine .of_appends appends (.rollback (mem_of_source copied) ⟨?_, ?_⟩) mem
    all_goals rw [copy]
  case clear => cases mem

end History
end AirRelease
