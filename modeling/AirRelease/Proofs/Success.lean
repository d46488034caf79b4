import Mathlib.Tactic.Simproc.ExistsAndEq

namespace AirRelease

variable {α β ε ε' : Type}

@[simp]
theorem bind_eq_ok {x : Except ε α} {f : α → Except ε β} {b : β} :
    (x >>= f) = .ok b ↔ ∃ a, x = .ok a ∧ f a = .ok b := by
  cases x <;> simp [bind, Except.bind]

theorem bind_eq_error {x : Except ε α} {f : α → Except ε β} {e : ε} :
    (x >>= f) = .error e ↔ x = .error e ∨ ∃ a, x = .ok a ∧ f a = .error e := by
  cases x <;> simp [bind, Except.bind]

@[simp]
theorem pure_eq_ok {a b : α} : (pure a : Except ε α) = .ok b ↔ a = b := by
  simp [pure, Except.pure]

@[simp]
theorem throw_eq_error (e : ε) : (throw e : Except ε α) = .error e :=
  rfl

@[simp]
theorem error_bind (e : ε) (f : α → Except ε β) : (.error e >>= f) = .error e :=
  rfl

theorem ok_bind (a : α) (f : α → Except ε β) : (.ok a >>= f) = f a :=
  rfl

@[simp]
theorem fmap_eq_map (f : α → β) (x : Except ε α) : f <$> x = x.map f :=
  rfl

@[simp]
theorem map_error (f : α → β) (e : ε) : (Except.error e).map f = .error e :=
  rfl

@[simp]
theorem map_eq_ok {x : Except ε α} {f : α → β} {b : β} :
    x.map f = .ok b ↔ ∃ a, x = .ok a ∧ f a = b := by
  cases x <;> simp [Except.map]

@[simp]
theorem mapError_ok (f : ε → ε') (a : α) : (Except.ok a).mapError f = .ok a :=
  rfl

@[simp]
theorem mapError_error (f : ε → ε') (e : ε) : (Except.error e : Except ε α).mapError f = .error (f e) :=
  rfl

@[simp]
theorem mapError_eq_ok {x : Except ε α} {f : ε → ε'} {a : α} :
    x.mapError f = .ok a ↔ x = .ok a := by
  cases x with
  | error e => exact iff_of_false nofun nofun
  | ok b => exact ⟨fun eq => by cases eq; rfl, fun eq => by cases eq; rfl⟩

@[simp]
theorem elim_eq_ok {o : Option α} {e : ε} {a : α} :
    o.elim (Except.error e) Except.ok = .ok a ↔ o = some a := by
  cases o <;> simp

@[simp]
theorem ite_error_eq_ok {p : Prop} [Decidable p] {e : ε} {x : Except ε α} {a : α} :
    (if p then .error e else x) = .ok a ↔ ¬p ∧ x = .ok a := by
  split <;> simp_all

@[simp]
theorem ite_else_error_eq_ok {p : Prop} [Decidable p] {e : ε} {x : Except ε α} {a : α} :
    (if p then x else .error e) = .ok a ↔ p ∧ x = .ok a := by
  split <;> simp_all

-- If each element is accepted under a condition, and with one result, so is the list.
theorem mapM_eq_ok_iff {f : α → Except ε β} {P : α → Prop} {g : α → β} {as : List α} {bs : List β}
    (each : ∀ a ∈ as, ∀ b, f a = .ok b ↔ P a ∧ b = g a) :
    as.mapM f = .ok bs ↔ (∀ a ∈ as, P a) ∧ bs = as.map g := by
  induction as generalizing bs with
  | nil => simp [List.mapM_nil, -pure_eq_ok, pure_eq_ok.trans eq_comm]
  | cons a as ih =>
    obtain ⟨first, each⟩ := List.forall_mem_cons.mp each
    simp only [List.mapM_cons, bind_eq_ok, pure_eq_ok, first, ih each, List.forall_mem_cons, List.map_cons]
    constructor
    · rintro ⟨_, ⟨holds, rfl⟩, _, ⟨others, rfl⟩, rfl⟩
      exact ⟨⟨holds, others⟩, rfl⟩
    · rintro ⟨⟨holds, others⟩, rfl⟩
      exact ⟨_, ⟨holds, rfl⟩, _, ⟨others, rfl⟩, rfl⟩

-- A list is refused for the reason of one of its elements.
theorem error_of_mapM {f : α → Except ε β} {Q : ε → Prop} {as : List α} {e : ε}
    (each : ∀ a ∈ as, ∀ e, f a = .error e → Q e) (failed : as.mapM f = .error e) : Q e := by
  induction as with
  | nil => cases failed
  | cons a as ih =>
    obtain ⟨first, each⟩ := List.forall_mem_cons.mp each
    rw [List.mapM_cons] at failed
    rcases bind_eq_error.mp failed with failed | ⟨_, _, failed⟩
    case inl => exact first e failed
    case inr =>
      rcases bind_eq_error.mp failed with failed | ⟨_, _, failed⟩
      case inl => exact ih each failed
      case inr => cases failed

end AirRelease
