import AirRelease.Store

namespace AirRelease

structure Memory where
  apps : Registry
  histories : List (AccessKey × History)
  held : List LockTarget

namespace Memory

def empty : Memory :=
  ⟨.empty, [], []⟩

def history (s : Memory) (key : AccessKey) : History :=
  (s.histories.lookup key).getD .empty

def eraseHistory (s : Memory) (key : AccessKey) : Memory :=
  { s with histories := s.histories.filter (·.1 ≠ key) }

def setHistory (s : Memory) (key : AccessKey) (h : History) : Memory :=
  { s with histories := (key, h) :: (s.eraseHistory key).histories }

theorem history_setHistory_self (s : Memory) (key : AccessKey) (h : History) :
    (s.setHistory key h).history key = h := by
  simp [history, setHistory]

theorem lookup_filter_of_ne (hs : List (AccessKey × History)) {key other : AccessKey}
    (ne : other ≠ key) : (hs.filter (·.1 ≠ key)).lookup other = hs.lookup other := by
  induction hs with
  | nil => rfl
  | cons e rest ih =>
    obtain ⟨k, h⟩ := e
    by_cases hk : k = key
    · subst hk
      simp only [ne_eq, decide_not, List.filter_cons, decide_true, Bool.not_true, Bool.false_eq_true,
        if_false, List.lookup_cons, beq_eq_false_iff_ne.mpr ne] at ih ⊢
      exact ih
    · simp only [ne_eq, decide_not, List.filter_cons, hk, decide_false, Bool.not_false, if_true,
        List.lookup_cons] at ih ⊢
      rw [ih]

theorem history_eraseHistory_self (s : Memory) (key : AccessKey) : (s.eraseHistory key).history key = .empty := by
  have gone : (s.histories.filter (·.1 ≠ key)).lookup key = none := by
    rw [List.lookup_eq_none_iff]
    intro e mem
    have ne := of_decide_eq_true (List.mem_filter.mp mem).2
    exact bne_iff_ne.mpr (Ne.symm ne)
  rw [history, eraseHistory, gone]
  rfl

theorem history_eraseHistory_of_ne (s : Memory) {key other : AccessKey} (ne : other ≠ key) :
    (s.eraseHistory key).history other = s.history other := by
  simp only [history, eraseHistory]
  rw [lookup_filter_of_ne _ ne]

theorem history_setHistory_of_ne (s : Memory) {key other : AccessKey} (ne : other ≠ key)
    (h : History) : (s.setHistory key h).history other = s.history other := by
  rw [← history_eraseHistory_of_ne s ne]
  simp [history, setHistory, List.lookup_cons, beq_eq_false_iff_ne.mpr ne]

def tryLock (s : Memory) (target : LockTarget) : Bool × Memory :=
  if target ∈ s.held then (false, s) else (true, { s with held := target :: s.held })

def unlock (s : Memory) (target : LockTarget) : Memory :=
  { s with held := s.held.filter (· ≠ target) }

-- Nobody can give a lock back while it is waited for, so that waiting does nothing.
def store : Store (StateM Memory) where
  loadApps := fun s => (.ok s.apps, s)
  saveApps apps := fun s => (.ok (), { s with apps })
  loadHistory key := fun s => (.ok (s.history key), s)
  saveHistory key h := fun s => (.ok (), s.setHistory key h)
  deleteHistory key := fun s => (.ok (), s.eraseHistory key)
  tryLock target := fun s => ((.ok (s.tryLock target).1), (s.tryLock target).2)
  unlock target := fun s => ((), s.unlock target)
  pause _ := fun s => ((), s)

end Memory
end AirRelease
