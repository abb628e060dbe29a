import Sigimora.Ats.Scheme

/-!
# Errors of the REST API
-/

namespace Sigimora.Server

/-- A statement that the database refuses. -/
inductive DbError
  | constraint (message : String)
  deriving DecidableEq, Repr

/-- Top-level API error. -/
inductive ApiError
  | notFound (message : String)
  | badRequest (message : String)
  | unauthorized (message : String)
  | internal (message : String)
  | database (e : DbError)
  | crypto (message : String)
  deriving DecidableEq, Repr

instance : ToString DbError where
  toString
    | .constraint message => message

instance : ToString ApiError where
  toString
    | .notFound message => s!"not found: {message}"
    | .badRequest message => s!"bad request: {message}"
    | .unauthorized message => s!"unauthorized: {message}"
    | .internal message => s!"internal error: {message}"
    | .database e => s!"database error: {e}"
    | .crypto message => s!"crypto error: {message}"

/-- The conversion that `?` applies to errors of the signature scheme. -/
def ApiError.ofAts (e : Ats.AtsError) : ApiError := .crypto s!"{e}"

end Sigimora.Server
