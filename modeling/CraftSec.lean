import CraftSec.Lib.Lucas
import CraftSec.Lib.PrimeOrder
import CraftSec.Lib.Interpolation
import CraftSec.Lib.ThresholdSchnorr
import CraftSec.Lib.History
import CraftSec.Lib.Simulation
import CraftSec.Lib.Journal
import CraftSec.Lib.MaskedAnswers
import CraftSec.Lib.FixedWidth
import CraftSec.Lib.Utf8
import CraftSec.Lib.PrefixCode
import CraftSec.Lib.Congruence
import CraftSec.Lib.WeakestPre
import CraftSec.Core.Error
import CraftSec.Core.GroupOrder
import CraftSec.Core.Scalar
import CraftSec.Core.Json
import CraftSec.Core.Types
import CraftSec.Core.Decode
import CraftSec.Core.Receipt
import CraftSec.Core.Reference
import CraftSec.Core.Encoding
import CraftSec.Core.SigningBytes
import CraftSec.Core.JsonText
import CraftSec.Core.JsonReference
import CraftSec.Core.Serde
import CraftSec.Dkg.Polynomial
import CraftSec.Dkg.Feldman
import CraftSec.Dkg.Pdk
import CraftSec.Dkg.Rotation
import CraftSec.Dkg.Sharing
import CraftSec.Dkg.Lifecycle
import CraftSec.Dkg.Invariant
import CraftSec.Dkg.Coins
import CraftSec.Dkg.Secrecy
import CraftSec.Signing.Lagrange
import CraftSec.Dkg.Reconstruction
import CraftSec.Dkg.Torsion
import CraftSec.Dkg.Derivation
import CraftSec.Dkg.Ordering
import CraftSec.Signing.Frost
import CraftSec.Signing.Binding
import CraftSec.Signing.Session
import CraftSec.Signing.Leakage
import CraftSec.Signing.Refusal
import CraftSec.Signing.Exactness
import CraftSec.Signing.Epochs
import CraftSec.Signing.Completeness
import CraftSec.Signing.Configuration
import CraftSec.Node.Executor
import CraftSec.Node.Node
import CraftSec.Node.Fleet
import CraftSec.Node.ProgramSession
import CraftSec.Node.Sql
import CraftSec.Node.Wasm
import CraftSec.Node.ReadOnly
import CraftSec.Node.Queries
import CraftSec.Node.Journal
import CraftSec.Node.SqlValues
import CraftSec.Node.Guests
import CraftSec.Node.TransferValidator
import CraftSec.Node.TransferGuest
import CraftSec.Node.TransferVerdict
import CraftSec.Node.Validators
import CraftSec.Node.Freeze
import CraftSec.Node.Migration
import CraftSec.Client.Transport
import CraftSec.Client.Nonces
import CraftSec.Client.Client
import CraftSec.Client.Agreement
import CraftSec.Client.P2p
import CraftSec.Client.Unwraps
import CraftSec.Client.Honest
import CraftSec.Client.Quiet
import CraftSec.Client.Local
import CraftSec.Client.Provenance
import CraftSec.Client.Sessions
import CraftSec.Client.Robustness
import CraftSec.Client.ProgramKeys
import CraftSec.Client.Service
import CraftSec.Client.Deployment
import CraftSec.Client.Transfers
import CraftSec.Client.Leakage
import CraftSec.Client.Messages
import CraftSec.Client.Provider
import CraftSec.Cli.VerifyReceipt
import CraftSec.Cli.Receipts
import CraftSec.Cli.Commands
import CraftSec.Cli.Attestation
