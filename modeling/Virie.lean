import Virie.Attachments
import Virie.Outcomes
import Virie.CachedDifficulty
import Virie.BlockSizeLimit
import Virie.BlockWeight
import Virie.CachedTimestamps
import Virie.CheckpointFinality
import Virie.PoolIndependence
import Virie.AccessorCoherence
import Virie.AliasRegistry
import Virie.PoolKeyImages
import Virie.PoolReservations
import Virie.Synchronization
import Virie.MultisigSigning
import Virie.SeparateSignatures
import Virie.Chainstate.Books
import Virie.Blobs
import Virie.SkippedSignatures
import Virie.SupplyConservation
import Virie.PrunedSizes
import Virie.AddressSpelling
import Virie.Protocol.Handler
import Virie.SilentStall
import Virie.Foundation.Following
import Virie.Wallet.Cutting
import Virie.ProofOfWork
import Virie.BranchTimestamps
import Virie.BranchMultisig
import Virie.StratumJob
import Virie.MinerAddress
import Virie.EscrowAmounts
import Virie.PayloadReading
import Virie.EscrowStates
import Virie.MultisigMarks
import Virie.MultisigRollback
import Virie.MintedBlocks
import Virie.InputAmounts
import Virie.Forecast
import Virie.DependencyHeight
import Virie.RingOffsets
import Virie.BlockReward
import Virie.AmountDigits
import Virie.AmountText
import Virie.Mnemonic.RestorePhrase
import Virie.OfferChains
import Virie.MultisigSpends
import Virie.PopAfterPush
import Virie.Rescan
import Virie.TransactionLock
import Virie.Stratum.Framing
import Virie.BlockId
import Virie.PeerLists
import Virie.OfferOwnership
import Virie.FoundPayments
import Virie.PreparedDestinations
import Virie.OfferPages
import Virie.CompleteSelection
import Virie.FeeMedians
import Virie.RecordedAmounts
import Virie.Commands
import Virie.AcceptedTransfers
