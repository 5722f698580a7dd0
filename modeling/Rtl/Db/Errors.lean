import Mathlib.Init

/-! # Errors of the database layer

libpqxx throws a hierarchy of exceptions; `translate_pqxx_exceptions` turns them
into the errors of `db::core` by the first clause that catches them. An exception
is therefore known by that clause. What no clause catches passes through.
-/

namespace Rtl.Db

inductive ErrorCode where
  | unknown
  | connectionError
  | poolExhausted
  | poolTimeout
  | queryError
  | constraintViolation
  | serializationFailure
  | deadlockDetected
  | transactionAborted
  | mappingError
  | configurationError
  deriving Repr, DecidableEq

/-- `DbError` and the classes derived from it. Handlers tell exceptions apart by class: a `DbError`
itself may be thrown with any code, a derived class sets its own. -/
inductive DbErrorClass where
  | base (code : ErrorCode)
  | connectionError
  | poolExhausted
  | poolTimeout
  | queryError
  | constraintViolation
  | serializationFailure
  | deadlockDetected
  | transactionAborted
  | mappingError
  | configurationError
  deriving Repr, DecidableEq

/-- The clauses of `translate_pqxx_exceptions`, in their order. -/
inductive PqxxClass where
  | deadlockDetected
  | serializationFailure
  | integrityConstraintViolation
  | transactionRollback
  | sqlError
  | conversionError
  | argumentError
  | usageError
  | internalError
  | inDoubtError
  | brokenConnection
  | failure
  | uncaught
  deriving Repr, DecidableEq

structure PqxxError where
  kind : PqxxClass
  what : String
  sqlState : String
  deriving Repr, DecidableEq

/-- How a call into libpqxx ends; results are left out. -/
abbrev Outcome := Except PqxxError Unit

inductive Thrown where
  | dbError (kind : DbErrorClass) (message : String) (sqlState : Option String)
  | logicError (message : String)
  | runtimeError (message : String)
  | passed (error : PqxxError)
  deriving Repr, DecidableEq

def Thrown.connectionError (message : String) : Thrown := .dbError .connectionError message none

/-- What the handlers `catch (db::core::ConnectionError &)` catch. -/
def Thrown.isConnectionError : Thrown → Bool
  | .dbError .connectionError _ _ => true
  | _ => false

def toSqlState (sqlState : String) : Option String :=
  if sqlState = "" then none else some sqlState

def PqxxError.translate (e : PqxxError) : Thrown :=
  match e.kind with
  | .deadlockDetected => .dbError .deadlockDetected e.what (toSqlState e.sqlState)
  | .serializationFailure => .dbError .serializationFailure e.what (toSqlState e.sqlState)
  | .integrityConstraintViolation => .dbError .constraintViolation e.what (toSqlState e.sqlState)
  | .transactionRollback => .dbError .transactionAborted e.what (toSqlState e.sqlState)
  | .sqlError => .dbError .queryError e.what (toSqlState e.sqlState)
  | .conversionError => .dbError .mappingError e.what none
  | .argumentError => .dbError .queryError e.what none
  | .usageError => .dbError .queryError e.what none
  | .internalError => .dbError .queryError e.what none
  | .inDoubtError => .dbError .transactionAborted e.what none
  | .brokenConnection => .connectionError e.what
  | .failure => .connectionError e.what
  | .uncaught => .passed e

def translatePqxxExceptions : Outcome → Except Thrown Unit
  | .ok () => .ok ()
  | .error e => .error e.translate

end Rtl.Db
