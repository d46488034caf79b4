import AirRelease.Email

namespace AirRelease

inductive RegistryError
  | appNotFound (name : String)
  | appConflict (name : Name)
  | deploymentNotFound (name : String)
  | deploymentConflict (name : Name)
  | collaboratorNotFound (email : Email) (app : Name)
  | collaboratorConflict (email : Email) (app : Name)
  | ownerRemoval (app : Name)
  | notOwner (app : Name)
deriving DecidableEq

def RegistryError.message : RegistryError → String
  | .appNotFound name => s!"app {name} does not exist"
  | .appConflict name => s!"app {name.text} already exists"
  | .deploymentNotFound name => s!"deployment {name} does not exist"
  | .deploymentConflict name => s!"deployment {name.text} already exists"
  | .collaboratorNotFound email app => s!"{email.text} is not a collaborator on {app.text}"
  | .collaboratorConflict email app => s!"{email.text} is already a collaborator on {app.text}"
  | .ownerRemoval app => s!"the owner of {app.text} cannot be removed"
  | .notOwner app => s!"only the owner can modify {app.text}"

end AirRelease
