import Fieldbus.Bench.Peer
import Fieldbus.Bench.Session
import Fieldbus.Document.Parser
import Fieldbus.Settings.Link
import Fieldbus.Settings.Register
import Fieldbus.Proofs.Run.Calls
import Fieldbus.Proofs.Run.Lock
import Fieldbus.Proofs.Run.Path
import Fieldbus.Proofs.Run.Traffic
import Fieldbus.Proofs.Run.Move
import Fieldbus.Proofs.Run.Order
import Fieldbus.Proofs.Run.Step
import Fieldbus.Proofs.Link.Discipline
import Fieldbus.Proofs.Link.Abandonment
import Fieldbus.Proofs.Link.Closing
import Fieldbus.Proofs.Link.Exchanges
import Fieldbus.Proofs.Polling.Deferral
import Fieldbus.Proofs.Write.Device
import Fieldbus.Proofs.Write.Section
import Fieldbus.Proofs.Write.Attempts
import Fieldbus.Proofs.Run.Phases
import Fieldbus.Proofs.Write.Serial
import Fieldbus.Proofs.Codec.Fields
import Fieldbus.Proofs.Write.Cells
import Fieldbus.Proofs.Write.Commands
import Fieldbus.Proofs.Write.Outcome
import Fieldbus.Proofs.Polling.Scheduler
import Fieldbus.Proofs.Polling.Visits
import Fieldbus.Proofs.Polling.Members
import Fieldbus.Proofs.Polling.Publication
import Fieldbus.Proofs.Polling.Layout
import Fieldbus.Proofs.Polling.Fewest
import Fieldbus.Proofs.Polling.Rearrangement
import Fieldbus.Proofs.Polling.Pace
import Fieldbus.Proofs.Polling.Rounds
import Fieldbus.Proofs.Polling.Signals
import Fieldbus.Proofs.Polling.Switching
import Fieldbus.Proofs.Write.Requests
import Fieldbus.Proofs.Link.Requests
import Fieldbus.Proofs.Link.Shutdown
import Fieldbus.Proofs.Run.Fairness
import Fieldbus.Proofs.Write.Dismissal
import Fieldbus.Proofs.Link.Ending
import Fieldbus.Proofs.Write.Merging
import Fieldbus.Proofs.Write.Refusals
import Fieldbus.Proofs.Write.Steps
import Fieldbus.Proofs.Write.Retries
import Fieldbus.Proofs.Polling.Forecast
import Fieldbus.Proofs.Polling.Completion
import Fieldbus.Proofs.Polling.Isolation
import Fieldbus.Proofs.Codec.Readings
import Fieldbus.Proofs.Codec.Bytes
import Fieldbus.Proofs.Codec.FieldNumbers
import Fieldbus.Proofs.Codec.Integers
import Fieldbus.Proofs.Codec.Strings
import Fieldbus.Proofs.Write.Interference
import Fieldbus.Proofs.Codec.Faults
import Fieldbus.Proofs.Link.States
import Fieldbus.Proofs.Polling.SingleVisits
import Fieldbus.Proofs.Codec.Doubles
import Fieldbus.Proofs.Codec.Numerals
import Fieldbus.Proofs.Text.Digits
import Fieldbus.Proofs.Point.Addresses
import Fieldbus.Proofs.Frame.Streams
import Fieldbus.Proofs.Polling.Registration
import Fieldbus.Proofs.Write.Activity
import Fieldbus.Proofs.Point.Components
import Fieldbus.Proofs.Point.Durations
import Fieldbus.Proofs.Point.Fractions
import Fieldbus.Proofs.Register.Ranges
import Fieldbus.Proofs.Settings.Reloading
import Fieldbus.Proofs.Run.Clock
