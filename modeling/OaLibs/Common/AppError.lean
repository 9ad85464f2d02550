import Mathlib.Tactic

/-!
# The shared error type

`error.rs`: every service answers with an `AppError`, which fixes the HTTP status, a stable
business code and the text shown to the user. The text of an internal error is not shown.
-/

namespace OaLibs

/-- A field-level validation error. -/
structure FieldError where
  field : String
  message : String
  deriving DecidableEq

/-- The error type of the services. -/
inductive AppError
  | badRequest (code detail : String)
  | unauthorized (code detail : String)
  | forbidden (code detail : String)
  | notFound (code detail : String)
  | conflict (code detail : String)
  | tooManyRequests (code detail : String)
  | unprocessable (code detail : String) (errors : List FieldError)
  | internal (err : String)
  deriving DecidableEq

/-- The HTTP status. -/
def AppError.status : AppError → ℕ
  | .badRequest _ _ => 400
  | .unauthorized _ _ => 401
  | .forbidden _ _ => 403
  | .notFound _ _ => 404
  | .conflict _ _ => 409
  | .tooManyRequests _ _ => 429
  | .unprocessable _ _ _ => 422
  | .internal _ => 500

/-- The business code. -/
def AppError.code : AppError → String
  | .badRequest code _ => code
  | .unauthorized code _ => code
  | .forbidden code _ => code
  | .notFound code _ => code
  | .conflict code _ => code
  | .tooManyRequests code _ => code
  | .unprocessable code _ _ => code
  | .internal _ => "INTERNAL"

/-- The `Display` text, which goes to the logs. -/
def AppError.display : AppError → String
  | .badRequest _ detail => detail
  | .unauthorized _ detail => detail
  | .forbidden _ detail => detail
  | .notFound _ detail => detail
  | .conflict _ detail => detail
  | .tooManyRequests _ detail => detail
  | .unprocessable _ detail _ => detail
  | .internal err => "internal error: " ++ err

end OaLibs
