import NmLogging.Reader.Acceptance
import NmLogging.Sinks.Sessions
import NmLogging.Sinks.Replacement
import NmLogging.OneLine
import NmLogging.AuditHistory
import NmLogging.AuditSharing
import NmLogging.AuditChain
import NmLogging.AuditFile
import NmLogging.AuditTexts
import NmLogging.AuditShown
import NmLogging.Containment
import NmLogging.Envelope
import NmLogging.Hostile
import NmLogging.EventId
import NmLogging.Templates
import NmLogging.Registration
import NmLogging.Usability
import NmLogging.HealthOrder
import NmLogging.Reader.Unambiguous
import NmLogging.Sinks.Fallback
import NmLogging.AuditTrail
import NmLogging.OperationalStream
import NmLogging.LiveReading
import NmLogging.HealthReads
import NmLogging.Sinks.Descriptors
import NmLogging.LockedLog
import NmLogging.Strictness
import NmLogging.Facades
import NmLogging.Degradation
import NmLogging.LockedTrail
