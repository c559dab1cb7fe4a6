import Courier.Api.Client
import Courier.Replay
import Courier.Transport.Crowd
import Courier.Proofs.Path
import Courier.Proofs.Schedule
import Courier.Proofs.Attempt
import Courier.Proofs.RetryLaw
import Courier.Proofs.Delivery
import Courier.Proofs.InStep
import Courier.Proofs.Transparency
import Courier.Proofs.Redaction
import Courier.Proofs.Secrecy
import Courier.Proofs.Answered
import Courier.Proofs.Cursor
import Courier.Proofs.Encoding
import Courier.Proofs.Addressing
import Courier.Proofs.Host
import Courier.Proofs.Numbering
import Courier.Proofs.Account
import Courier.Proofs.Documents
import Courier.Proofs.Pages
import Courier.Proofs.Statuses
import Courier.Proofs.Aggregates
import Courier.Proofs.Shape
import Courier.Proofs.Limits
import Courier.Proofs.Errands
import Courier.Proofs.Rewrapping
import Courier.Proofs.Sources
import Courier.Proofs.Patterns
import Courier.Proofs.Rendering
import Courier.Proofs.Drafting
import Courier.Proofs.Octets
import Courier.Proofs.Lines
import Courier.Proofs.Words
import Courier.Proofs.Dumps
import Courier.Proofs.MediaTypes
import Courier.Proofs.Markup
import Courier.Proofs.Previews
import Courier.Proofs.HostLines
import Courier.Proofs.Linewise
import Courier.Proofs.DotSegments
import Courier.Proofs.Streams
import Courier.Proofs.Expectations
