import Http3Framing.Proofs.Boundary
import Http3Framing.Proofs.RoundTrip
import Http3Framing.Proofs.Waiting
import Http3Framing.Varint.Pieces
import Http3Framing.Proofs.Listening
import Http3Framing.Proofs.Charging
import Http3Framing.Proofs.Outcome
import Http3Framing.Proofs.Dropping
import Http3Framing.Proofs.Output
import Http3Framing.Proofs.Filling
import Http3Framing.Proofs.Fragmentation
import Http3Framing.Proofs.Poisoning
import Http3Framing.Proofs.Integers
import Http3Framing.Proofs.Sides
import Http3Framing.Proofs.Bookkeeping
import Http3Framing.Proofs.Payload
import Http3Framing.Proofs.Canonical
import Http3Framing.Proofs.Deadlines
import Http3Framing.Proofs.Layout
import Http3Framing.Proofs.Piecewise
import Http3Framing.Proofs.Rounds
import Http3Framing.Proofs.Faultless
