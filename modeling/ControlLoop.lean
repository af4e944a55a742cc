import ControlLoop.Bench.Queue
import ControlLoop.Bench.Script
import ControlLoop.Bench.Serial
import ControlLoop.Daemon.Basic
import ControlLoop.Main
import ControlLoop.Proofs.Pool.Delivery
import ControlLoop.Proofs.Pool.Quiet
import ControlLoop.Proofs.Pool.RetryLaw
import ControlLoop.Proofs.Pool.SingleFlight
import ControlLoop.Record.Json
import ControlLoop.Proofs.Store.Filing
import ControlLoop.Proofs.Store.Indexed
import ControlLoop.Proofs.Store.Scan
import ControlLoop.Proofs.Store.InPlace
import ControlLoop.Proofs.Pool.Accounts
import ControlLoop.Proofs.Pool.Closing
import ControlLoop.Proofs.Pool.Story
import ControlLoop.Proofs.Pool.Isolated
import ControlLoop.Proofs.Pool.RetryTimes
import ControlLoop.Proofs.Store.History
import ControlLoop.Proofs.Store.Refile
import ControlLoop.Proofs.Queue.Run
import ControlLoop.Proofs.Queue.Deliveries
import ControlLoop.Proofs.Queue.Delays
import ControlLoop.Proofs.Queue.Turns
import ControlLoop.Proofs.Pool.Kinds
import ControlLoop.Proofs.Pool.Relay
import ControlLoop.Proofs.Serial.Hall
import ControlLoop.Proofs.Serial.Order
import ControlLoop.Proofs.Daemon.Live
import ControlLoop.Proofs.Pool.Verdict
import ControlLoop.Proofs.Daemon.Sound
import ControlLoop.Proofs.Daemon.Converge
import ControlLoop.Proofs.Bench.Basic
import ControlLoop.Proofs.Daemon.Bench
import ControlLoop.Proofs.Daemon.LastEvent
import ControlLoop.Proofs.Pool.Waits
import ControlLoop.Proofs.Record.Tail
import ControlLoop.Proofs.Pool.InLine
import ControlLoop.Proofs.Daemon.Named
import ControlLoop.Proofs.Pool.Drain
import ControlLoop.Proofs.Daemon.Ledger
import ControlLoop.Proofs.Pool.Attentive
import ControlLoop.Proofs.Pool.Resync
import ControlLoop.Proofs.Bench.Turns
import ControlLoop.Proofs.Bench.Desk
import ControlLoop.Proofs.Bench.SerialDesk
import ControlLoop.Proofs.Bench.PoolDesk
import ControlLoop.Proofs.Bench.Variants
import ControlLoop.Proofs.Settings.Backoff
import ControlLoop.Proofs.Text.Digits
import ControlLoop.Proofs.Text.Blank
import ControlLoop.Proofs.Settings.Environment
import ControlLoop.Proofs.Json.Grammar
import ControlLoop.Proofs.Json.Reader
import ControlLoop.Proofs.Json.Spelling
import ControlLoop.Proofs.Json.Meaning
import ControlLoop.Proofs.Json.Fields
import ControlLoop.Proofs.Json.Tokens
import ControlLoop.Proofs.Json.RoundTrip
import ControlLoop.Proofs.Time.Calendar
import ControlLoop.Proofs.Time.Rfc3339
import ControlLoop.Proofs.Time.Clock
import ControlLoop.Proofs.Record.RoundTrip
import ControlLoop.Proofs.Daemon.Event
import ControlLoop.Proofs.Daemon.Fields
