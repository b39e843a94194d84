/-
  What can go wrong, as causes, and the wording of each cause.

  A cause carries the values that its wording needs and nothing more. What is
  wrong with bytes or values that do not have the expected form at all is not
  told apart further.
-/

namespace NameService

/-- Why an amount has no coin, or a coin no amount. -/
inductive AmountFault where
  /-- The amount does not count billionths. -/
  | fractionalDigits (digits : UInt32)
  /-- The quantity is empty or holds something other than ASCII digits. -/
  | notDigits (quantity : String)
  /-- The whole part of the quantity is 2^63 or more. -/
  | tooLarge (quantity : String)
  | negativeWhole
  | negativeFractional
  /-- The coin has a fractional part of a whole unit or more. -/
  | fractionalTooLarge (fractional : Int64)
  deriving DecidableEq, Repr

/-- Why a text is not an address. -/
inductive AddressFault where
  /-- The text does not have the form of a bech32 string. -/
  | unreadable (address : String)
  /-- The checksum is wrong or missing, or the text is too long for one. -/
  | badChecksum (address : String)
  | wrongPrefix (address expected actual : String)
  deriving DecidableEq, Repr

/-- What the codec does not handle. -/
inductive Unsupported where
  | transactionKind (kind : String)
  /-- The message of a transaction on the wire. -/
  | message
  /-- The action of a proposal on the wire. -/
  | proposalOption
  /-- An action other than a transfer inside a batch. -/
  | batchMember
  | secp256k1
  deriving DecidableEq, Repr

/-- Which rule of the chain is broken. -/
inductive Violation where
  /-- A username comes without its namespace. -/
  | usernameNamespace
  /-- An escrow update names no party or several. -/
  | partyCount (parties : Nat)
  | missingVoter
  | zeroDenominator
  | noSelection
  | unknownSelection (number : Int32)
  /-- A validator is not named by its public key. -/
  | validatorKey
  /-- A chain id does not fit behind one length byte. -/
  | chainIdTooLong
  deriving DecidableEq, Repr

inductive Error where
  /-- A field is absent, or holds its empty value. -/
  | missing (field : String)
  | invalidLength (field : String) (expected actual : Nat)
  | invalidAmount (fault : AmountFault)
  /-- A memo has more bytes than the chain allows. -/
  | memoTooLong (limit actual : Nat)
  | invalidAddress (fault : AddressFault)
  | unsupported (what : Unsupported)
  | violation (rule : Violation)
  /-- Bytes are not a wire message of the expected type. -/
  | malformedWire
  /-- A value does not have the expected form. -/
  | malformedValue
  deriving DecidableEq, Repr

/-! ## Wording -/

def AmountFault.text : AmountFault → String
  | .fractionalDigits digits => s!"Fractional digits must be 9 but was {digits}"
  | .notDigits quantity => s!"Quantity must be a non-negative integer string, got '{quantity}'"
  | .tooLarge quantity => s!"Quantity '{quantity}' exceeds the int64 range"
  | .negativeWhole => "Component `whole` must not be negative"
  | .negativeFractional => "Component `fractional` must not be negative"
  | .fractionalTooLarge fractional =>
    s!"Component `fractional` must be below 10^9, got {fractional}"

def AddressFault.text : AddressFault → String
  | .unreadable address => s!"{address}: parse failed"
  | .badChecksum address => s!"{address}: invalid checksum"
  | .wrongPrefix address expected actual =>
    s!"{address}: expected prefix '{expected}', got '{actual}'"

def Unsupported.text : Unsupported → String
  | .transactionKind kind => s!"Received transaction of unsupported kind: {kind}"
  | .message => "unknown message type in transaction"
  | .proposalOption => "Unsupported ProposalOptions"
  | .batchMember => "Only send actions are currently supported in proposal batch"
  | .secp256k1 => "unsupported algorithm: secp256k1"

def Violation.text : Violation → String
  | .usernameNamespace =>
    "The username property needs to be a full human readable address, " ++
      "including the namespace suffix (e.g. '*iov')"
  | .partyCount parties => s!"Only one party can be updated at a time, got {parties}"
  | .missingVoter => "In strict mode VoteTx.voter must be set"
  | .zeroDenominator => "Denominator must not be 0"
  | .noSelection => "VOTE_OPTION_INVALID is not allowed"
  | .unknownSelection number => s!"Received unknown value for vote option: {number}"
  | .validatorKey =>
    "Got validators object key of unexpected format. Must be 'ed25519_<pubkey_hex>'"
  | .chainIdTooLong => "chainId must not exceed a length of 255 characters"

def Error.message : Error → String
  | .missing field => s!"missing {field}"
  | .invalidLength field expected actual =>
    s!"Invalid length of {field}: expected {expected} bytes, got {actual}"
  | .invalidAmount fault => s!"Invalid amount: {fault.text}"
  | .memoTooLong limit actual => s!"Invalid memo length: maximum {limit} bytes, got {actual}"
  | .invalidAddress fault => s!"Invalid address: {fault.text}"
  | .unsupported what => s!"Unsupported kind: {what.text}"
  | .violation rule => rule.text
  | .malformedWire => "malformed wire message"
  | .malformedValue => "malformed value"

end NameService
