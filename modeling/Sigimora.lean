import Sigimora.Ats.Binding
import Sigimora.Ats.BitmapCommitment
import Sigimora.Ats.Members
import Sigimora.Ats.Scheme
import Sigimora.Ats.Signing
import Sigimora.Ats.Tracing
import Sigimora.Crypto.Accountability
import Sigimora.Crypto.Bls
import Sigimora.Crypto.BlsThreshold
import Sigimora.Crypto.Cipher
import Sigimora.Crypto.Dkg
import Sigimora.Crypto.DkgCalls
import Sigimora.Crypto.DkgCorrectness
import Sigimora.Crypto.DkgFinalize
import Sigimora.Crypto.DkgInvariants
import Sigimora.Crypto.DkgRoundTrip
import Sigimora.Crypto.DkgRun
import Sigimora.Crypto.DkgSoundness
import Sigimora.Crypto.DkgWire
import Sigimora.Crypto.DkgWireSafety
import Sigimora.Crypto.Error
import Sigimora.Crypto.Feldman
import Sigimora.Crypto.Frost
import Sigimora.Crypto.FrostBytes
import Sigimora.Crypto.FrostEpochs
import Sigimora.Crypto.FrostRefresh
import Sigimora.Crypto.FrostSession
import Sigimora.Crypto.FrostSigning
import Sigimora.Crypto.LagrangeCoefficients
import Sigimora.Crypto.Participants
import Sigimora.Crypto.Pedersen
import Sigimora.Crypto.PedersenSharing
import Sigimora.Crypto.ProactiveRefresh
import Sigimora.Crypto.Qualification
import Sigimora.Crypto.RepeatedIndices
import Sigimora.Crypto.Secrecy
import Sigimora.Crypto.SecretSharing
import Sigimora.Crypto.Shamir
import Sigimora.Crypto.ShareDecryption
import Sigimora.Crypto.ShareEncryption
import Sigimora.Library.Accumulate
import Sigimora.Library.ByteStream
import Sigimora.Library.ByteString
import Sigimora.Library.Faulty
import Sigimora.Library.Fifo
import Sigimora.Library.FirstEntries
import Sigimora.Library.HashTable
import Sigimora.Library.Horner
import Sigimora.Library.Interpolation
import Sigimora.Library.Isolation
import Sigimora.Library.Json
import Sigimora.Library.Outcome
import Sigimora.Library.Paging
import Sigimora.Library.Program
import Sigimora.Library.Reader
import Sigimora.Library.Run
import Sigimora.Library.Schnorr
import Sigimora.Library.SortedList
import Sigimora.Library.Stateful
import Sigimora.Library.Trust
import Sigimora.Math.Curve
import Sigimora.Math.ExponentCurve
import Sigimora.Math.Order
import Sigimora.Math.Pairing
import Sigimora.Math.Scalar
import Sigimora.Math.ScalarPower
import Sigimora.Mcp.Atomicity
import Sigimora.Mcp.Calls
import Sigimora.Mcp.Challenge
import Sigimora.Mcp.Channel
import Sigimora.Mcp.Effects
import Sigimora.Mcp.EnoughMessages
import Sigimora.Mcp.Error
import Sigimora.Mcp.Framing
import Sigimora.Mcp.Handshake
import Sigimora.Mcp.HonestMembers
import Sigimora.Mcp.Identity
import Sigimora.Mcp.KeyGeneration
import Sigimora.Mcp.Ledger
import Sigimora.Mcp.LedgerApprovals
import Sigimora.Mcp.LedgerFates
import Sigimora.Mcp.LedgerTiers
import Sigimora.Mcp.Operations
import Sigimora.Mcp.PeerTable
import Sigimora.Mcp.PendingSigners
import Sigimora.Mcp.Protocol
import Sigimora.Mcp.RevealBinding
import Sigimora.Mcp.Schnorr
import Sigimora.Mcp.SigningRound
import Sigimora.Mcp.ThresholdProofs
import Sigimora.Mcp.Zkp
import Sigimora.Refresh.Additive
import Sigimora.Refresh.ContributionChecks
import Sigimora.Refresh.Contributions
import Sigimora.Refresh.Correctness
import Sigimora.Refresh.Epochs
import Sigimora.Refresh.Manager
import Sigimora.Refresh.Protocol
import Sigimora.Refresh.PublicKeyCheck
import Sigimora.Server.AnyQuorum
import Sigimora.Server.ApiKeyEntropy
import Sigimora.Server.ApiKeyRoutes
import Sigimora.Server.AuditTrail
import Sigimora.Server.Authentication
import Sigimora.Server.BatchSigning
import Sigimora.Server.Concurrency
import Sigimora.Server.Confidentiality
import Sigimora.Server.Database
import Sigimora.Server.Disclosure
import Sigimora.Server.Error
import Sigimora.Server.FaithfulRecords
import Sigimora.Server.Faults
import Sigimora.Server.Interleaving
import Sigimora.Server.Isolation
import Sigimora.Server.KeyGeneration
import Sigimora.Server.KeyLifetime
import Sigimora.Server.KeyMaterial
import Sigimora.Server.KeyRequests
import Sigimora.Server.KeyRows
import Sigimora.Server.LedgerAtomicity
import Sigimora.Server.LedgerPaging
import Sigimora.Server.Lifecycle
import Sigimora.Server.Middleware
import Sigimora.Server.Migrations
import Sigimora.Server.NetworkCreation
import Sigimora.Server.NetworkFrames
import Sigimora.Server.Permanence
import Sigimora.Server.Privilege
import Sigimora.Server.Provenance
import Sigimora.Server.PublishedKeys
import Sigimora.Server.QueryRoutes
import Sigimora.Server.Quorum
import Sigimora.Server.RateLimiter
import Sigimora.Server.RateWindows
import Sigimora.Server.Recording
import Sigimora.Server.Recovery
import Sigimora.Server.Requests
import Sigimora.Server.Revocation
import Sigimora.Server.Robustness
import Sigimora.Server.Rotation
import Sigimora.Server.Routes
import Sigimora.Server.Service
import Sigimora.Server.Signers
import Sigimora.Server.SigningRoutes
import Sigimora.Server.StoredKeys
import Sigimora.Server.Strangers
import Sigimora.Server.Tables
import Sigimora.Server.TraceRoute
