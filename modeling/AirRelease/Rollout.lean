import AirRelease.Label

namespace AirRelease

@[ext]
structure Rollout where
  percent : Nat
  pos : 0 < percent
  le : percent ≤ 100
deriving DecidableEq

inductive RolloutError
  | outOfRange (value : Int)
  | inProgress (label : Label)
  | alreadyFull
  | mustIncrease (current : Rollout)
deriving DecidableEq

namespace Rollout

def full : Rollout :=
  ⟨100, by decide, by decide⟩

def IsFull (r : Rollout) : Prop :=
  r.percent = 100

instance : DecidablePred IsFull :=
  fun r => inferInstanceAs (Decidable (r.percent = 100))

def ofInt (value : Int) : Except RolloutError Rollout :=
  if h : 1 ≤ value ∧ value ≤ 100 then .ok ⟨value.toNat, by omega, by omega⟩
  else .error (.outOfRange value)

theorem ofInt_percent (r : Rollout) : ofInt r.percent = .ok r := by
  have := r.pos
  have := r.le
  unfold ofInt
  rw [dif_pos (by omega)]
  rfl

def text (r : Rollout) : String :=
  s!"{r.percent}%"

end Rollout

def RolloutError.message : RolloutError → String
  | .outOfRange value => s!"rollout must be between 1 and 100, got {value}"
  | .inProgress label => s!"release {label.text} has a rollout in progress"
  | .alreadyFull => "rollout of a fully rolled out release cannot be changed"
  | .mustIncrease current => s!"rollout must be greater than the current value of {current.text}"

end AirRelease
