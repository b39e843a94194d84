import NameService.Json.Parser
import NameService.Json.Printer
import NameService.Proofs.Wire.Framing
import NameService.Transaction.Json
import NameService.Proofs.Wire.Layout
import NameService.Proofs.Wire.Schema
import NameService.Proofs.Bech32
import NameService.Proofs.NormalForm
import NameService.Proofs.Result
import NameService.Proofs.Agreement
import NameService.Proofs.Codec
import NameService.Proofs.Fields
import NameService.Proofs.Actions
import NameService.Proofs.Operations
import NameService.Proofs.RoundTrip
import NameService.Proofs.Signing
import NameService.Proofs.Stability
import NameService.Proofs.Bech32.Grammar
import NameService.Proofs.Bech32.Spelling
import NameService.Proofs.Accepts
import NameService.Proofs.Leaf
import NameService.Proofs.Acceptance
import NameService.Proofs.Reading
import NameService.Proofs.FixedPoint
import NameService.Proofs.Refusal
import NameService.Proofs.Wire.Same
import NameService.Proofs.Lossless
import NameService.Proofs.Wire.Truncation
import NameService.Proofs.Truncation
import NameService.Proofs.Soundness
import NameService.Proofs.Amount
import NameService.Proofs.Address
import NameService.Proofs.Alike
import NameService.Proofs.Hashed
import NameService.Proofs.Ensures
import NameService.Proofs.Wire.Rules
import NameService.Proofs.Independence
import NameService.Proofs.Emission
import NameService.Proofs.Envelope
import NameService.Proofs.Respelling
import NameService.Proofs.Json.Fields
import NameService.Proofs.Json.Actions
import NameService.Proofs.Json.RoundTrip
import NameService.Proofs.Bech32.Burst
import NameService.Proofs.Participants
import NameService.Proofs.TypingErrors
import NameService.Proofs.Id
import NameService.Proofs.Json.Grammar
