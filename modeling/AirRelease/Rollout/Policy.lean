import AirRelease.Package

namespace AirRelease.Rollout

-- The rollout of a release that would follow `current`.
def forRelease (requested : Option Int) (current : Option Package) : Except RolloutError Rollout := do
  let rollout ← requested.elim (.ok full) ofInt
  match current with
  | some p => if p.Pending then .error (.inProgress p.label) else .ok rollout
  | none => .ok rollout

def forPatch (current : Package) (requested : Int) : Except RolloutError Rollout := do
  let rollout ← ofInt requested
  if current.rollout.IsFull then .error .alreadyFull
  else if rollout.percent ≤ current.rollout.percent then .error (.mustIncrease current.rollout)
  else .ok rollout

theorem lt_of_forPatch {current : Package} {requested : Int} {r : Rollout}
    (h : forPatch current requested = .ok r) : current.rollout.percent < r.percent := by
  unfold forPatch at h
  cases ho : ofInt requested with
  | error e => simp [ho, bind, Except.bind] at h
  | ok o =>
    simp only [ho, bind, Except.bind] at h
    split at h
    · cases h
    · split at h
      · cases h
      · cases h; omega

end AirRelease.Rollout
