import Mathlib.Tactic.Common

namespace AirRelease

variable {σ α β ε : Type}

@[simp]
theorem bind_apply (x : StateM σ α) (f : α → StateM σ β) (s : σ) :
    (x >>= f) s = f (x s).1 (x s).2 :=
  rfl

@[simp]
theorem pure_apply (a : α) (s : σ) : (pure a : StateM σ α) s = (a, s) :=
  rfl

theorem run_bind_apply (x : ExceptT ε (StateM σ) α) (f : α → ExceptT ε (StateM σ) β) (s : σ) :
    (x >>= f).run s =
      match x.run s with
      | (.ok a, s) => (f a).run s
      | (.error e, s) => (.error e, s) := by
  rw [ExceptT.run_bind, bind_apply]
  rcases x.run s with ⟨_ | _, _⟩ <;> rfl

theorem run_pure_eq_ok {a b : α} {s : σ} :
    ((pure a : ExceptT ε (StateM σ) α).run s).1 = .ok b ↔ b = a :=
  ⟨fun eq => (Except.ok.inj eq).symm, fun eq => eq ▸ rfl⟩

-- An action that changes nothing.
def Reads (x : ExceptT ε (StateM σ) α) : Prop :=
  ∀ s, (x.run s).2 = s

namespace Reads

variable {x : ExceptT ε (StateM σ) α} {f : α → ExceptT ε (StateM σ) β} {as : List α}

theorem pure (a : α) : Reads (pure a : ExceptT ε (StateM σ) α) :=
  fun _ => rfl

theorem lift (x : Except ε α) : Reads (liftM x : ExceptT ε (StateM σ) α) :=
  fun _ => rfl

theorem bind (reads : Reads x) (next : ∀ a, Reads (f a)) : Reads (x >>= f) := by
  intro s
  rw [run_bind_apply]
  rcases ran : x.run s with ⟨e | a, s'⟩
  all_goals
    have same : s' = s := by simpa [ran] using reads s
    subst same
  · rfl
  · exact next a s'

theorem mapM (reads : ∀ a, Reads (f a)) : Reads (as.mapM f) := by
  induction as with
  | nil => exact .pure _
  | cons a as ih =>
    rw [List.mapM_cons]
    exact .bind (reads a) fun _ => .bind ih fun _ => .pure _

-- The result of the first action decides whether the second one is run, from the same state.
theorem result_bind (reads : Reads x) (s : σ) :
    ((x >>= f).run s).1 = (x.run s).1 >>= fun a => ((f a).run s).1 := by
  rw [run_bind_apply]
  rcases ran : x.run s with ⟨e | a, s'⟩
  all_goals
    have same : s' = s := by simpa [ran] using reads s
    subst same
    rfl

theorem result_mapM (reads : ∀ a, Reads (f a)) (s : σ) :
    ((as.mapM f).run s).1 = as.mapM fun a => ((f a).run s).1 := by
  induction as with
  | nil => rfl
  | cons a as ih =>
    rw [List.mapM_cons, List.mapM_cons, result_bind (reads a), ← ih]
    congr
    funext b
    exact result_bind (mapM reads) s

end Reads
end AirRelease
