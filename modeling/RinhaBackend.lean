import RinhaBackend.Foundation.Execution
import RinhaBackend.Foundation.Lockstep
import RinhaBackend.Foundation.Calendar
import RinhaBackend.Foundation.Text
import RinhaBackend.Foundation.Double
import RinhaBackend.Foundation.Json
import RinhaBackend.Foundation.JsonText
import RinhaBackend.Foundation.Decimal
import RinhaBackend.Foundation.Ieee
import RinhaBackend.Foundation.Generation
import RinhaBackend.Foundation.Fifo
import RinhaBackend.Foundation.Window
import RinhaBackend.Foundation.Scan
import RinhaBackend.Foundation.Pacer
import RinhaBackend.Foundation.Mailbox
import RinhaBackend.Foundation.Accumulator
import RinhaBackend.Timestamp
import RinhaBackend.Payment
import RinhaBackend.Queue
import RinhaBackend.QueueSteps
import RinhaBackend.Failover
import RinhaBackend.Call
import RinhaBackend.Switching
import RinhaBackend.Ledger
import RinhaBackend.Query
import RinhaBackend.SummaryWindow
import RinhaBackend.TimestampOrder
import RinhaBackend.Service
import RinhaBackend.Invariants
import RinhaBackend.Threads
import RinhaBackend.ReplyHistory
import RinhaBackend.Intake
import RinhaBackend.Dealing
import RinhaBackend.Conservation
import RinhaBackend.PayloadText
import RinhaBackend.Substitution
import RinhaBackend.Whitespace
import RinhaBackend.Capacity
import RinhaBackend.Rejection
import RinhaBackend.Replies
import RinhaBackend.Agreement
import RinhaBackend.FallbackDisabled
import RinhaBackend.Draining
import RinhaBackend.Pacing
import RinhaBackend.SharedHandles
import RinhaBackend.RacingStores
import RinhaBackend.Cluster
import RinhaBackend.TwoInstances
import RinhaBackend.WindowLaws
import RinhaBackend.RapidJson.Itoa
import RinhaBackend.RapidJson.Dtoa
import RinhaBackend.RapidJson.DiyFp
import RinhaBackend.RapidJson.Grisu2
import RinhaBackend.RapidJson.Document
import RinhaBackend.RapidJson.Reader
import RinhaBackend.RapidJson.ReadNumber
import RinhaBackend.RapidJson.ReadText
import RinhaBackend.RapidJson.Acceptance
import RinhaBackend.RapidJson.PrintedDouble
import RinhaBackend.RapidJson.RoundTrip
import RinhaBackend.SummaryWire
import RinhaBackend.WireCluster
