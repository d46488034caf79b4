namespace AirRelease

inductive ReadError
  -- The text is not well written or its shape is not the expected one.
  | malformed
  -- A value is well written, but a rule refuses it.
  | refused (message : String)
deriving DecidableEq

namespace Record

-- The value of a field that has not been met before.
def once (field : Option α) (value : Except ReadError α) : Except ReadError (Option α) :=
  if field.isSome then .error .malformed else value.map some

def required (field : Option α) : Except ReadError α :=
  field.elim (.error .malformed) .ok

theorem once_none (value : α) : once none (.ok value) = .ok (some value) :=
  rfl

theorem once_some (field : α) (value : Except ReadError α) : once (some field) value = .error .malformed :=
  rfl

end Record
end AirRelease
