import AirRelease.Email

namespace AirRelease

inductive Permission
  | owner
  | collaborator
deriving DecidableEq

def Permission.name : Permission → String
  | .owner => "Owner"
  | .collaborator => "Collaborator"

@[ext]
structure Collaborators where
  entries : List (Email × Permission)
  sorted : entries.Pairwise (·.1 < ·.1)
deriving DecidableEq

namespace Collaborators

def empty : Collaborators :=
  ⟨[], .nil⟩

def find (cs : Collaborators) (e : Email) : Option Permission :=
  (cs.entries.find? (·.1 = e)).map (·.2)

def emails (cs : Collaborators) : List Email :=
  cs.entries.map (·.1)

def Has (cs : Collaborators) (e : Email) : Prop :=
  (cs.find e).isSome

instance (cs : Collaborators) (e : Email) : Decidable (cs.Has e) :=
  inferInstanceAs (Decidable (_ = true))

-- The first owner in the order of addresses.
def owner? (cs : Collaborators) : Option Email :=
  (cs.entries.find? (·.2 = .owner)).map (·.1)

def insertEntry (e : Email) (p : Permission) : List (Email × Permission) → List (Email × Permission)
  | [] => [(e, p)]
  | (d, q) :: rest =>
    if e < d then (e, p) :: (d, q) :: rest
    else if e = d then (e, p) :: rest
    else (d, q) :: insertEntry e p rest

theorem mem_insertEntry {e : Email} {p : Permission} {es : List (Email × Permission)}
    {x : Email × Permission} (h : x ∈ insertEntry e p es) : x = (e, p) ∨ x ∈ es := by
  induction es with
  | nil => simpa [insertEntry] using h
  | cons y rest ih =>
    simp only [insertEntry] at h
    split at h
    · simpa using h
    · split at h
      · simp only [List.mem_cons] at h ⊢
        exact h.imp_right .inr
      · rcases List.mem_cons.mp h with rfl | h
        · simp
        · exact (ih h).imp_right (List.mem_cons_of_mem _)

theorem sorted_insertEntry {es : List (Email × Permission)} (h : es.Pairwise (·.1 < ·.1))
    (e : Email) (p : Permission) : (insertEntry e p es).Pairwise (·.1 < ·.1) := by
  induction es with
  | nil => simp [insertEntry]
  | cons y rest ih =>
    have ⟨hy, hr⟩ := List.pairwise_cons.mp h
    simp only [insertEntry]
    split
    case isTrue lt =>
      refine List.pairwise_cons.mpr ⟨?_, h⟩
      intro x hx
      rcases List.mem_cons.mp hx with rfl | hx
      · exact lt
      · exact Email.lt_trans lt (hy x hx)
    case isFalse ge =>
      split
      case isTrue eq => exact List.pairwise_cons.mpr ⟨fun x hx => eq ▸ hy x hx, hr⟩
      case isFalse ne =>
        refine List.pairwise_cons.mpr ⟨?_, ih hr⟩
        intro x hx
        rcases mem_insertEntry hx with rfl | hx
        · exact (Email.eq_or_lt_of_not_lt ge).resolve_left ne
        · exact hy x hx

-- An address that is there already gets the new permission.
def insert (cs : Collaborators) (e : Email) (p : Permission) : Collaborators :=
  ⟨insertEntry e p cs.entries, sorted_insertEntry cs.sorted e p⟩

def erase (cs : Collaborators) (e : Email) : Collaborators :=
  ⟨cs.entries.filter (·.1 ≠ e), cs.sorted.filter _⟩

theorem find_empty (e : Email) : empty.find e = none :=
  rfl

theorem find_insert_self (cs : Collaborators) (e : Email) (p : Permission) :
    (cs.insert e p).find e = some p := by
  simp only [find, insert]
  induction cs.entries with
  | nil => simp [insertEntry]
  | cons y rest ih =>
    simp only [insertEntry]
    split
    · simp
    · split
      · simp
      · rename_i ne
        simp only [List.find?, Ne.symm ne, decide_false]
        exact ih

theorem find_insert_of_ne (cs : Collaborators) {e d : Email} (ne : d ≠ e) (p : Permission) :
    (cs.insert e p).find d = cs.find d := by
  simp only [find, insert]
  induction cs.entries with
  | nil => simp [insertEntry, Ne.symm ne]
  | cons y rest ih =>
    simp only [insertEntry]
    split
    · simp [Ne.symm ne]
    · split
      · rename_i eq; simp [Ne.symm ne, ← eq]
      · by_cases h : y.1 = d
        case pos => simp [h]
        case neg => simpa [h] using ih

theorem find_insert (cs : Collaborators) (e d : Email) (p : Permission) :
    (cs.insert e p).find d = if d = e then some p else cs.find d := by
  split
  case isTrue h => exact h ▸ find_insert_self ..
  case isFalse h => exact find_insert_of_ne _ h _

theorem find_erase_self (cs : Collaborators) (e : Email) : (cs.erase e).find e = none := by
  simp [find, erase, List.find?_eq_none]

theorem find_erase_of_ne (cs : Collaborators) {e d : Email} (ne : d ≠ e) :
    (cs.erase e).find d = cs.find d := by
  simp only [find, erase]
  induction cs.entries with
  | nil => rfl
  | cons y rest ih =>
    by_cases h : y.1 = d
    case pos => simp [h, ne]
    case neg => by_cases g : y.1 = e <;> simp_all

theorem has_empty (e : Email) : ¬empty.Has e := by
  simp [Has, find_empty]

theorem has_insert {cs : Collaborators} {e d : Email} {p : Permission} :
    (cs.insert e p).Has d ↔ d = e ∨ cs.Has d := by
  simp only [Has, find_insert]
  split <;> simp_all

theorem has_erase {cs : Collaborators} {e d : Email} : (cs.erase e).Has d ↔ d ≠ e ∧ cs.Has d := by
  by_cases h : d = e
  case pos => simp [h, Has, find_erase_self]
  case neg => simp [h, Has, find_erase_of_ne]

end Collaborators
end AirRelease
