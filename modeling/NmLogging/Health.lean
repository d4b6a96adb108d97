import NmLogging.Framework.Text

/-!
# Logging health

`LoggingHealth` of `health.py`: the state that the write path sets and the application
reads. Each method holds the lock of the object for all it does, so each is one step.
-/

namespace NmLogging

/-- `LoggingHealth`. -/
structure LoggingHealth where
  degraded : Bool
  totalFailures : Nat
  totalRecoveries : Nat
  lastFailureKind : Option PyStr
  deriving DecidableEq

namespace LoggingHealth

/-- `LoggingHealth()`. -/
def init : LoggingHealth := ⟨false, 0, 0, none⟩

def markDegraded (health : LoggingHealth) (kind : PyStr) : LoggingHealth :=
  { health with
    degraded := true, totalFailures := health.totalFailures + 1, lastFailureKind := some kind }

def markHealthy (health : LoggingHealth) : LoggingHealth :=
  if health.degraded then
    { health with degraded := false, totalRecoveries := health.totalRecoveries + 1 }
  else health

end LoggingHealth

end NmLogging
