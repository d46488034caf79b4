import Mathlib.Data.List.Induction

namespace AirRelease.Run

variable {σ κ : Type} {step : σ → κ → σ} {s : σ} {P : σ → Prop}

-- When each good call keeps a property, then so does a run that meets no other calls.
theorem of_good {Good : σ → κ → Prop} (init : P s) (keep : ∀ s c, P s → Good s c → P (step s c))
    {calls : List κ} (good : ∀ done c, done ++ [c] <+: calls → Good (done.foldl step s) c) :
    P (calls.foldl step s) := by
  induction calls using List.reverseRecOn with
  | nil => exact init
  | append_singleton calls c ih =>
    rw [List.foldl_append]
    have before := ih fun done d pre => good done d (pre.trans (List.prefix_append ..))
    exact keep _ c before (good calls c (List.prefix_refl _))

-- When each call keeps a property unless it is a bad one, then the property holds throughout a run
-- if and only if the run meets no bad call.
theorem throughout_iff {Bad : σ → κ → Prop} (init : P s)
    (keep : ∀ s c, P s → (P (step s c) ↔ ¬Bad s c)) (calls : List κ) :
    (∀ done, done <+: calls → P (done.foldl step s)) ↔
      ∀ done c, done ++ [c] <+: calls → ¬Bad (done.foldl step s) c := by
  constructor
  case mp =>
    intro all done c pre
    have before := all done ((List.prefix_append ..).trans pre)
    have after := all (done ++ [c]) pre
    rw [List.foldl_append] at after
    exact (keep _ c before).mp after
  case mpr =>
    intro good done pre
    refine of_good init (fun s c holds => (keep s c holds).mpr) fun first c sub => ?_
    exact good first c (sub.trans pre)

end AirRelease.Run
