import NmLogging.Framework.Python

/-!
# Exceptions and vocabularies

The exception hierarchy of `exceptions.py`, and the closed vocabularies of
`severity.py` and `audit_vocab.py` with their wire spellings. Every class of the
package derives from `NmLoggingError` directly.
-/

namespace NmLogging

/-! ## Exceptions -/

/-- A class that derives from `NmLoggingError`. -/
def packageError (name : PyStr) (b : Base) (h : b.parent = some .nmLoggingError) : ExcClass where
  qualname := name
  bases := [b, .nmLoggingError, .exception, .baseException]
  derived := by
    simp only [List.forall_mem_cons, h, Option.mem_def]
    simp [Base.parent]

def LoggingConfigurationError : ExcClass :=
  packageError (lit "LoggingConfigurationError") .loggingConfigurationError rfl
def EventSchemaError : ExcClass := packageError (lit "EventSchemaError") .eventSchemaError rfl
def SinkError : ExcClass := packageError (lit "SinkError") .sinkError rfl
def AuditPersistenceError : ExcClass :=
  packageError (lit "AuditPersistenceError") .auditPersistenceError rfl
def AuditUsageError : ExcClass := packageError (lit "AuditUsageError") .auditUsageError rfl
def AuditFinalisationError : ExcClass :=
  packageError (lit "AuditFinalisationError") .auditFinalisationError rfl
def ReaderError : ExcClass := packageError (lit "ReaderError") .readerError rfl

/-! ## Vocabularies -/

/-- The operational severities. -/
inductive Severity where
  | info
  | warning
  | error
  | critical
  deriving DecidableEq

def Severity.value : Severity → PyStr
  | info => lit "INFO"
  | warning => lit "WARNING"
  | error => lit "ERROR"
  | critical => lit "CRITICAL"

/-- What kind of accountable fact an audit record represents. -/
inductive Category where
  | admin
  | activity
  deriving DecidableEq

def Category.value : Category → PyStr
  | admin => lit "ADMIN"
  | activity => lit "ACTIVITY"

/-- Where a record sits in the audit durability model. -/
inductive Stage where
  | complete
  | intent
  | outcome
  deriving DecidableEq

def Stage.value : Stage → PyStr
  | complete => lit "complete"
  | intent => lit "intent"
  | outcome => lit "outcome"

/-- The result of an audited mutation attempt. -/
inductive Outcome where
  | success
  | failure
  | indeterminate
  deriving DecidableEq

def Outcome.value : Outcome → PyStr
  | success => lit "success"
  | failure => lit "failure"
  | indeterminate => lit "indeterminate"

end NmLogging
