import AirRelease.Proofs.Files.Linkless

namespace AirRelease.FileTree

variable {t t' : FileTree} {n : Nat} {here base place : Place} {names : List String} {p : Path}
  {bytes : ByteArray}

-- A walk from a directory ends at a directory or at an entry of one, which is no link.
theorem entry_of_walk (directory : t.kind here = some .directory)
    (reached : t.walk true n here names = .ok place) (leaf : t.kind place ≠ some .directory) :
    ∃ folder x, place = folder ++ [x] ∧ t.kind folder = some .directory ∧
      ∀ target, t.kind place ≠ some (.link target) := by
  induction n, here, names using walk_induction with
  | nil n here =>
    rw [walk_nil] at reached
    cases reached
    exact absurd directory leaf
  | dot n here names ih =>
    rw [walk_dot] at reached
    exact ih directory reached
  | up n here names ih =>
    rw [walk_up] at reached
    exact ih (directory_dropLast directory) reached
  | step n here name names proper ih links =>
    by_cases fits : name.utf8ByteSize ≤ maxNameLength
    case neg => simp [walk_long proper (Nat.lt_of_not_le fits)] at reached
    rw [walk_cons proper fits] at reached
    split at reached
    case h_1 missing =>
      split at reached <;> cases reached
      exact ⟨here, name, rfl, directory, fun _ => by rw [missing]; intro same; cases same⟩
    case h_2 passed => exact ih _ passed reached
    case h_3 file =>
      split at reached <;> cases reached
      exact ⟨here, name, rfl, directory, fun _ => by rw [file]; intro same; cases same⟩
    case h_4 target link =>
      rw [if_neg (by simp)] at reached
      cases n with
      | zero => cases reached
      | succ n =>
        refine links n rfl _ _ ?_ reached
        split
        · rfl
        · exact directory

-- A walk does not notice what becomes of the file that it ends at.
theorem walk_of_others (others : ∀ q, q ≠ place → t'.kind q = t.kind q)
    (file : t'.kind place = some (.file bytes)) (leaf : t.kind place ≠ some .directory)
    (unlinked : ∀ target, t.kind place ≠ some (.link target))
    (reached : t.walk true n here names = .ok place) : t'.walk true n here names = .ok place := by
  induction n, here, names using walk_induction with
  | nil n here =>
    rw [walk_nil] at reached ⊢
    exact reached
  | dot n here names ih =>
    rw [walk_dot] at reached ⊢
    exact ih reached
  | up n here names ih =>
    rw [walk_up] at reached ⊢
    exact ih reached
  | step n here name names proper ih links =>
    by_cases fits : name.utf8ByteSize ≤ maxNameLength
    case neg => simp [walk_long proper (Nat.lt_of_not_le fits)] at reached
    rw [walk_cons proper fits] at reached ⊢
    split at reached
    case h_1 | h_3 =>
      split at reached
      case isFalse => cases reached
      case isTrue last =>
        cases reached
        rw [file]
        exact if_pos last
    case h_2 passed =>
      rw [others _ (by rintro rfl; exact leaf passed), passed]
      exact ih _ reached
    case h_4 target link =>
      rw [others _ (by rintro rfl; exact unlinked target link), link]
      rw [if_neg (by simp)] at reached
      simp only [not_true_eq_false, and_false, if_false]
      cases n with
      | zero => cases reached
      | succ n => exact links n rfl _ _ reached

theorem read_of_write (distinct : t.Distinct) (directory : t.kind base = some .directory)
    (written : t.write base p bytes = .ok t') : t'.read base p = .ok bytes := by
  obtain ⟨place, located, leaf, rfl⟩ := write_eq_ok.mp written
  obtain ⟨checked, reached⟩ : p.check = .ok () ∧ t.walk true maxLinks (p.start base) p.steps = .ok place := by
    rw [locate_eq, bind_eq_ok] at located
    obtain ⟨_, checked, reached⟩ := located
    exact ⟨checked, reached⟩
  have start : t.kind (p.start base) = some .directory := by
    rw [Path.start]
    split
    · rfl
    · exact directory
  obtain ⟨folder, x, rfl, holder, unlinked⟩ := entry_of_walk start reached leaf
  have kinds : (t.put (folder ++ [x]) (.file bytes)).kind =
      Function.update t.kind (folder ++ [x]) (some (.file bytes)) :=
    kind_put distinct holder leaf (Node.bare_of_kind_ne fun same => by cases same)
  have file : (t.put (folder ++ [x]) (.file bytes)).kind (folder ++ [x]) = some (.file bytes) := by
    rw [kinds, Function.update_self]
  have others (q : Place) (ne : q ≠ folder ++ [x]) :
      (t.put (folder ++ [x]) (.file bytes)).kind q = t.kind q := by
    rw [kinds, Function.update_of_ne ne]
  rw [read_eq, locate_eq, checked, ok_bind, walk_of_others others file leaf unlinked reached, ok_bind,
    bytesAt, file]

end AirRelease.FileTree
