import Envelope.Base64.Canonical
import Envelope.Enclave
import Envelope.Enclave.Loading
import Envelope.Json.RoundTrip
import Envelope.Payload.Format
import Envelope.Proofs.Routes
import Envelope.Proofs.Sampling
import Envelope.Proofs.Extension
import Envelope.Proofs.FanOut
import Envelope.Proofs.Drafts
import Envelope.Proofs.Codec
import Envelope.Proofs.Transport
import Envelope.Proofs.History
import Envelope.Proofs.Listing
import Envelope.Proofs.Records
import Envelope.Proofs.Circle
import Envelope.Proofs.Custody
import Envelope.Proofs.Freshness
import Envelope.Proofs.Discretion
import Envelope.Proofs.Outsiders
import Envelope.Proofs.Openers
import Envelope.Proofs.Network
import Envelope.Proofs.Permits
import Envelope.Proofs.Schedules
import Envelope.Proofs.Loads
import Envelope.Proofs.Delivery
import Envelope.Proofs.Provisioning
import Envelope.Proofs.Allotment
import Envelope.Proofs.Unanimity
import Envelope.Proofs.Service
import Envelope.Proofs.Jobs
import Envelope.Proofs.Omission
import Envelope.Proofs.Gates
import Envelope.Proofs.Defaults
import Envelope.Proofs.Renewal
import Envelope.Proofs.Views
import Envelope.Proofs.Admission
import Envelope.Proofs.Offers
import Envelope.Proofs.Spelling
import Envelope.Proofs.Canonicity
