import HumanNetwork.Lib.Outcome
import HumanNetwork.Lib.HMap
import HumanNetwork.Lib.Bytes
import HumanNetwork.Lib.Pratt
import HumanNetwork.CurveOrder
import HumanNetwork.Curve
import HumanNetwork.Lib.Shamir
import HumanNetwork.Polynomial
import HumanNetwork.Feldman
import HumanNetwork.Node
import HumanNetwork.Dkg
import HumanNetwork.DkgEngine
import HumanNetwork.Resharing
import HumanNetwork.ResharingSecrecy
import HumanNetwork.Oprf
import HumanNetwork.Sampling
import HumanNetwork.Reconstruct
import HumanNetwork.Relay
import HumanNetwork.Lib.Reach
import HumanNetwork.RelayRuns
import HumanNetwork.RelayIntegrity
import HumanNetwork.RelayEpochs
import HumanNetwork.Lib.Draw
import HumanNetwork.NodeSelection
import HumanNetwork.Jwt
import HumanNetwork.Credits
import HumanNetwork.Accounting
import HumanNetwork.MulRequest
import HumanNetwork.Election
import HumanNetwork.Parameters
import HumanNetwork.Reelection
import HumanNetwork.ResharingEngine
import HumanNetwork.ResharingIndices
import HumanNetwork.Lib.Barrier
import HumanNetwork.Barriers
import HumanNetwork.Dealers
import HumanNetwork.Readiness
import HumanNetwork.Lib.Tally
import HumanNetwork.QuorumRelay
import HumanNetwork.QuorumMonitor
import HumanNetwork.Lib.Store
import HumanNetwork.Persistence
import HumanNetwork.ShareCustody
import HumanNetwork.PublicShares
import HumanNetwork.RoundPanics
import HumanNetwork.VerifiedRequests
import HumanNetwork.TaskProofs
import HumanNetwork.Lib.Ledger
import HumanNetwork.TaskBatches
import HumanNetwork.ThresholdAgreement
import HumanNetwork.ReelectionQuorums
import HumanNetwork.DkgRounds
import HumanNetwork.TstarIndices
import HumanNetwork.Sessions
import HumanNetwork.PrfInput
import HumanNetwork.Schnorr
import HumanNetwork.HashRanges
import HumanNetwork.Lib.Edwards
import HumanNetwork.CoordinateField
import HumanNetwork.Lib.CubicCurve
import HumanNetwork.Lib.Montgomery
import HumanNetwork.Lib.PrimeSubgroup
import HumanNetwork.Lib.Search
import HumanNetwork.Secp256k1
import HumanNetwork.BabyJubJub
import HumanNetwork.HashToCurve
import HumanNetwork.CanonicalPoints
import HumanNetwork.Serialization
import HumanNetwork.ServerSafety
import HumanNetwork.ElGamal
import HumanNetwork.Candidates
import HumanNetwork.DrandGate
import HumanNetwork.Lib.Projection
import HumanNetwork.SymbioticFilters
import HumanNetwork.AccountIsolation
import HumanNetwork.Publications
import HumanNetwork.ProcessRequest
import HumanNetwork.ApiToken
import HumanNetwork.RateLimit
import HumanNetwork.IngestDb
import HumanNetwork.Points
import HumanNetwork.TaskMonitor
import HumanNetwork.Lib.TwistedEdwards
import HumanNetwork.TwistedConversion
import HumanNetwork.Lib.Decimal
import HumanNetwork.FieldConversion
import HumanNetwork.KeyIsolation
import HumanNetwork.SymbioticPoints
import HumanNetwork.DkgAgreement
import HumanNetwork.DkgReady
import HumanNetwork.RelayAnswers
import HumanNetwork.Service
import HumanNetwork.ServiceAnswers
import HumanNetwork.Lib.Tickets
import HumanNetwork.Signer
