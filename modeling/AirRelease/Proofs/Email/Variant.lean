import AirRelease.Proofs.Email
import AirRelease.Proofs.Text.Variant

namespace AirRelease.Email

open Text (Variant isBlank lowercase trim)

variable {text other : String} {e : Email}

theorem wellFormed_map_toLower (cs : List Char) : wellFormed (cs.map Char.toLower) = wellFormed cs := by
  have outside : (fun c => decide (c ≠ '@')) ∘ Char.toLower = fun c => decide (c ≠ '@') :=
    funext fun c => by simp [Text.toLower_eq_at]
  have blanks : (cs.map Char.toLower).any isBlank = cs.any isBlank := by
    rw [List.any_map, funext Text.isBlank_toLower (f := isBlank ∘ Char.toLower)]
  rw [wellFormed, List.span_eq_takeWhile_dropWhile, List.takeWhile_map, List.dropWhile_map, outside,
    blanks, wellFormed, List.span_eq_takeWhile_dropWhile]
  cases cs.dropWhile fun c => decide (c ≠ '@') with
  | nil => rfl
  | cons c domain => simp [Text.toLower_eq_at]

-- A variant of an address is an address of the same account.
theorem ofText_of_variant (same : Variant text.toList other.toList) (read : ofText text = .ok e) :
    ofText other = .ok e := by
  have trimmed : (trim text.toList).map Char.toLower = (trim other.toList).map Char.toLower := by
    generalize text.toList = cs at same ⊢
    generalize other.toList = ds at same ⊢
    cases same with
    | intro left right left' right' same =>
      rw [Text.trim_surrounded left right, Text.trim_surrounded left' right',
        ← Text.trim_map_toLower, ← Text.trim_map_toLower, same]
  obtain ⟨formed, rfl⟩ := ofText_eq_ok.mp read
  refine ofText_eq_ok.mpr ⟨?_, ?_⟩
  · rwa [← wellFormed_map_toLower, ← trimmed, wellFormed_map_toLower]
  · rw [← Text.lowercase_map_toLower, ← trimmed, Text.lowercase_map_toLower]

theorem one_address (text : String) :
    ((∃ e, ofText text = .ok e) ↔ ∃ user domain, trim text.toList = user ++ '@' :: domain ∧ user ≠ [] ∧
      domain ≠ [] ∧ '@' ∉ user ∧ '@' ∉ domain ∧ ∀ c ∈ trim text.toList, isBlank c = false) ∧
    ∀ e, ofText text = .ok e →
      ofText e.text = .ok e ∧ ∀ other, Variant text.toList other.toList → ofText other = .ok e := by
  refine ⟨?accepted, fun e read => ⟨canonical_of_ofText read, fun other same => ofText_of_variant same read⟩⟩
  case accepted =>
    rw [← wellFormed_iff]
    constructor
    · intro ⟨e, read⟩
      exact (ofText_eq_ok.mp read).1
    · intro formed
      exact ⟨_, ofText_eq_ok.mpr ⟨formed, rfl⟩⟩

-- The form that a sigma takes at the end of a word stays as it is.
theorem one_address_sigma :
    ofText "\u00a0Σ.ΑΣ@Example.COM" = .ok ⟨"σ.ας@example.com"⟩ ∧
      ofText "σ.ας@example.com" = .ok ⟨"σ.ας@example.com"⟩ ∧
      ofText "Σ.ΑΣ@eXample.coM\t\u2003" = .ok ⟨"σ.ας@example.com"⟩ := by
  have read : ofText "\u00a0Σ.ΑΣ@Example.COM" = .ok ⟨"σ.ας@example.com"⟩ := by decide +kernel
  have same : Variant "\u00a0Σ.ΑΣ@Example.COM".toList "Σ.ΑΣ@eXample.coM\t\u2003".toList :=
    @Variant.intro ['\u00a0'] [] [] ['\t', '\u2003'] "Σ.ΑΣ@Example.COM".toList "Σ.ΑΣ@eXample.coM".toList
      (List.forall_mem_singleton.mpr (by decide)) nofun nofun
      (List.forall_mem_cons.mpr ⟨by decide, List.forall_mem_singleton.mpr (by decide)⟩) (by decide +kernel)
  obtain ⟨again, variants⟩ := (one_address _).2 _ read
  exact ⟨read, again, variants _ same⟩

end AirRelease.Email
