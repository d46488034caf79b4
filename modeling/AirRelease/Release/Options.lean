import AirRelease.Label

namespace AirRelease

structure ReleaseOptions where
  description : Option String := none
  disabled : Option Bool := none
  mandatory : Option Bool := none
  rollout : Option Int := none
  allowDuplicate : Bool := false
deriving DecidableEq

structure PatchOptions where
  label : Option Label := none
  description : Option String := none
  disabled : Option Bool := none
  mandatory : Option Bool := none
  rollout : Option Int := none
  version : Option String := none
deriving DecidableEq

-- Whether anything besides the label is given.
def PatchOptions.HasChanges (o : PatchOptions) : Prop :=
  o.description.isSome ∨ o.disabled.isSome ∨ o.mandatory.isSome ∨ o.rollout.isSome ∨ o.version.isSome

instance : DecidablePred PatchOptions.HasChanges :=
  fun _ => inferInstanceAs (Decidable (_ ∨ _ ∨ _ ∨ _ ∨ _))

structure PromoteOptions where
  description : Option String := none
  disabled : Option Bool := none
  mandatory : Option Bool := none
  rollout : Option Int := none
  version : Option String := none
  allowDuplicate : Bool := false
deriving DecidableEq

end AirRelease
