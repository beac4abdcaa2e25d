import Meridian.Ledger.Idempotency
import Meridian.Ledger.Books
import Meridian.Ledger.Corrections
import Meridian.Ledger.Outcome
import Meridian.Reconciliation.Amounts
import Meridian.Reconciliation.Variance
import Meridian.Reconciliation.Windows
import Meridian.Reconciliation.Matching
import Meridian.Reconciliation.MinorUnits
import Meridian.Reconciliation.Escapes
import Meridian.Reconciliation.Order
import Meridian.Disclosure.Actuarial
import Meridian.Disclosure.Figures
import Meridian.Origination.Review
import Meridian.Origination.Boarding
import Meridian.Coordinator.Gate
import Meridian.Assistant.Interlocks
import Meridian.Intake.Abandon
import Meridian.Intake.Capability
import Meridian.Assistant.TextCalls
import Meridian.Coordinator.Shape
import Meridian.Coordinator.Recorded
import Meridian.Origination.Reading
import Meridian.Servicing.Even
import Meridian.Disclosure.LastInterest
import Meridian.Llm.Budget
import Meridian.Llm.Masking
import Meridian.Redactor.Cards
import Meridian.Redactor.Queries
import Meridian.Limiter.Calls
import Meridian.Decisioning.Stub
import Meridian.Ledger.Backfill
import Meridian.Ledger.Fingerprint
import Meridian.Rag.Cache
import Meridian.Rag.Chunker
import Meridian.Rag.Hygiene
import Meridian.Rag.Evaluation
import Meridian.Rag.Judge
import Meridian.Rag.Manifest
import Meridian.Regex.Scattered
import Meridian.Coordinator.Verbatim
import Meridian.Clients.Probes
import Meridian.Gateway.Secrecy
import Meridian.Interleave.Beside
import Meridian.Interleave.Lock
import Meridian.Rag.Policy
import Meridian.Rag.Served
import Meridian.Logs.Retention
import Meridian.Health.SingleFlight
