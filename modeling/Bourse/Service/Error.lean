import Bourse.Feed.Basic
import Bourse.Identity
import Bourse.Trading.Error

/-!
# Errors of the Service

What a caller of the service is told. The text of a failure inside is kept for the
log and not shown.

## Main definitions

* `ServiceError`: the classes of errors.
* `ServiceError.ofTrade`, `ofFeed`: the class of an error.
-/

namespace Bourse

/-- Why a request to the service failed. -/
inductive ServiceError where
  | unauthenticated (cause : AuthError)
  | validation (text : String)
  | unavailable (text : String)
  | internal (detail : String)
deriving DecidableEq, Repr

namespace ServiceError

/-- What the caller is shown. -/
def message : ServiceError → String
  | .unauthenticated e => "unauthenticated: " ++ e.message
  | .validation s => "invalid request: " ++ s
  | .unavailable s => "unavailable: " ++ s
  | .internal _ => "internal error"

/-- Errors of trading keep their class. -/
def ofTrade : TradeError → ServiceError
  | .validation s => .validation s
  | .unavailable s => .unavailable s
  | .internal s => .internal s

/-- A feed that cannot be had may be there later. -/
def ofFeed (e : FeedError) : ServiceError :=
  .unavailable ("failed to register quote watch: " ++ e.message)

end ServiceError

end Bourse
