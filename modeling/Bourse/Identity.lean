import Bourse.Table
import Bourse.Text.Blank

/-!
# Identities

A caller shows a token. A registry knows the tokens of its users; a token given to
two of them belongs to the later one. Blanks around a token do not count.

## Main definitions

* `Identity`: who a token belongs to.
* `Registry`: identities by token.
* `Registry.authenticate`: the identity of a token.
-/

namespace Bourse

/-- A user as the registry knows them. -/
structure Identity where
  /-- The id under which the user's data is stored. -/
  key : String
  displayName : String
  profileUrl : String
deriving DecidableEq, Repr

/-- A token and the identity it stands for. -/
structure IdentityEntry where
  token : String
  identity : Identity
deriving DecidableEq, Repr

/-- Why a token was refused. -/
inductive AuthError where
  | missingCredentials
  | invalidToken
deriving DecidableEq, Repr

/-- The wording of an error. -/
def AuthError.message : AuthError → String
  | .missingCredentials => "missing credentials"
  | .invalidToken => "invalid token"

/-- Identities by token. -/
abbrev Registry := Table String Identity

namespace Registry

/-- The registry of some entries. -/
def ofEntries (l : List IdentityEntry) : Registry :=
  .ofList (l.map (fun e => (e.token, e.identity)))

/-- The identity of a token. -/
def authenticate (r : Registry) (token : String) : Except AuthError Identity :=
  let token := Text.trimmed token
  if token.isEmpty then .error .missingCredentials
  else match r.get? token with
    | some i => .ok i
    | none => .error .invalidToken

end Registry

end Bourse
