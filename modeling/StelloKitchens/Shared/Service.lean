import StelloKitchens.Lib.Guarded
import StelloKitchens.Shared.JsText

/-!
# Services of the API

What the services of the API have in common: who calls them, how they fail, and their transactions
and methods over the tables of a service.

## Main definitions

* `AuthUser`, `ServiceError` — the caller, and the failures.
* `ServiceTx`, `ServiceMethod` — transactions, and methods that run them.
* `autocommit`, `assertOutlet` — a statement of its own, and the check of the caller's outlet.
-/

namespace StelloKitchens.Service

/-- Who calls a method. -/
structure AuthUser where
  id : String
  tenantId : String
  outletIds : List String
  deriving DecidableEq

inductive ServiceError
  | badRequest (message : String)
  | forbidden (message : String)
  | notFound (message : String)
  | conflict (message : String)
  /-- A row that has to be there is not, or a value does not fit its column. -/
  | database
  /-- A unique key is taken. -/
  | p2002
  deriving DecidableEq

/-- The transactions over the tables of a service. -/
abbrev ServiceTx (σ κ α : Type) := Tx σ κ ServiceError α

/-- The methods of a service; they ask nothing of the outside. -/
abbrev ServiceMethod (σ κ ν : Type) := Method σ κ ν Empty Empty ServiceError

variable {σ κ ν α : Type}

/-- Statements that are a transaction of their own. -/
def autocommit (note : ν) (t : ServiceTx σ κ α) : ServiceMethod σ κ ν α :=
  Method.atomically (fun _ => note) t

/-- The user works at the outlet. -/
def assertOutlet (user : AuthUser) (outletId : String) : ServiceMethod σ κ ν Unit :=
  Method.guardOr (outletId ∈ user.outletIds) (.forbidden "No access to outlet")

end StelloKitchens.Service
