import Conformance.Main
import Conformance.Scripted.Server
import Conformance.Suite.Specimen
import Conformance.Client.Trial
import Conformance.Proofs.Session.Discard
import Conformance.Proofs.Session.Correlation
import Conformance.Proofs.Session.Scheduling
import Conformance.Proofs.Session.Sharing
import Conformance.Proofs.Session.Serial
import Conformance.Proofs.Stdio.Reading
import Conformance.Proofs.Stdio.Framing
import Conformance.Proofs.Json.RoundTrip
import Conformance.Proofs.Session.Fidelity
import Conformance.Proofs.Run.Isolation
import Conformance.Proofs.Session.Fatality
import Conformance.Proofs.Session.Trace
import Conformance.Proofs.Session.Loss
import Conformance.Proofs.Run.Abort
import Conformance.Proofs.Session.Stops
import Conformance.Proofs.Suite.Operations
import Conformance.Proofs.Session.Solo
import Conformance.Proofs.Suite.Timing
import Conformance.Proofs.Run.Tour
import Conformance.Proofs.Run.Verdict
import Conformance.Proofs.Wire.Codec
import Conformance.Proofs.Wire.Reply
import Conformance.Proofs.Demo.Session
import Conformance.Proofs.Session.Padding
import Conformance.Proofs.Demo.Host
import Conformance.Proofs.Demo.Notifications
import Conformance.Proofs.Session.Single
import Conformance.Proofs.Demo.Attending
import Conformance.Proofs.Demo.Answers
import Conformance.Proofs.Suite.Attended
import Conformance.Proofs.Demo.Opening
import Conformance.Proofs.Run.Conformity
import Conformance.Proofs.Wire.Acceptance
import Conformance.Proofs.Session.Acceptance
import Conformance.Proofs.Wire.Content
import Conformance.Proofs.Run.Scanning
import Conformance.Proofs.Settings.Layers
import Conformance.Proofs.Session.Listing
import Conformance.Proofs.Stdio.Draining
import Conformance.Proofs.Run.Breakdown
import Conformance.Proofs.Session.Bookkeeping
import Conformance.Proofs.Session.Rejection
import Conformance.Proofs.Settings.Forwarding
import Conformance.Proofs.Stdio.Stopping
