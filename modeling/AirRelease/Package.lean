import AirRelease.Rollout
import AirRelease.VersionRange

namespace AirRelease

inductive ReleaseMethod
  | upload
  | promote
  | rollback
deriving DecidableEq

def ReleaseMethod.name : ReleaseMethod → String
  | .upload => "Upload"
  | .promote => "Promote"
  | .rollback => "Rollback"

-- All of a package but its label, which the history gives.
structure Candidate where
  version : VersionRange
  hash : String
  size : Nat
  -- Milliseconds since the Unix epoch.
  uploadTime : Nat
  description : Option String
  disabled : Bool
  mandatory : Bool
  rollout : Rollout
  method : ReleaseMethod
deriving DecidableEq

structure Package extends Candidate where
  label : Label
deriving DecidableEq

namespace Candidate

def labelled (c : Candidate) (l : Label) : Package :=
  { c with label := l }

end Candidate

namespace Package

-- An incomplete rollout that still reaches devices.
def Pending (p : Package) : Prop :=
  ¬p.rollout.IsFull ∧ ¬p.disabled

instance : DecidablePred Pending :=
  fun _ => inferInstanceAs (Decidable (_ ∧ _))

end Package
end AirRelease
