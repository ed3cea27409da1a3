import Dims.ByteCodec
import Dims.Serialize
import Dims.Core
import Dims.Key
import Dims.CommunicationProtocol
import Dims.SignedPayload
import Dims.Participants
import Dims.Script
import Dims.GuardedRun
import Dims.CompressAmount
import Dims.Coins
import Dims.AddressToCoins
import Dims.AddressIndex
import Dims.TransactionRecordManager
import Dims.UnspentSet
import Dims.LedgerSteps
import Dims.Payments
import Dims.DoubleSpend
import Dims.ValueConservation
import Dims.AddressIndexMirror
import Dims.BundleAtomicity
import Dims.HeapTree
import Dims.SimpleBuddy
import Dims.BuddyAllocation
import Dims.ClientProtocol
import Dims.ValidateTransactions
import Dims.BundleApproval
import Dims.BroadcastBundle
import Dims.AdmitTransactionsBundle
import Dims.ConnectNodeAction
import Dims.HandshakeAuthenticity
import Dims.OriginAddressScanner
import Dims.AddressIndexRefinement
import Dims.OrderedMap
import Dims.HashChain
import Dims.BitcoinNodeMedium
import Dims.TrackOriginAddressAction
import Dims.ScannedHead
import Dims.SegmentFile
import Dims.SupportTransactionsDatabase
import Dims.BufferedMap
import Dims.LocationMap
import Dims.SegmentHeader
import Dims.SegmentFileStorage
import Dims.FlushInterleaving
import Dims.HeaderRecords
import Dims.StorageRestart
import Dims.StorageFiling
import Dims.BlockAreas
import Dims.RestartAllocation
import Dims.FallibleRun
import Dims.NodeMedium
import Dims.ResponseDelivery
import Dims.ChargeRegister
import Dims.NodeData
import Dims.ReputationTracker
import Dims.RankingConsistency
import Dims.PaidRegistration
import Dims.SynchronizationAction
import Dims.TrackerNodesManager
import Dims.UpdateNetworkData
import Dims.ActivityController
import Dims.StoredNumbers
import Dims.CopyStorageHandler
import Dims.CopySnapshot
import Dims.NetworkClient
import Dims.ActionHandler
import Dims.HandlerBinding
import Dims.ActionCleanup
import Dims.CliqueGroups
import Dims.AllyGroups
import Dims.TransactionStatus
import Dims.LocalPayment
import Dims.PaymentProof
import Dims.RecentPeriods
import Dims.AdmissionProof
import Dims.AdmissionPayment
import Dims.ReputationNodes
import Dims.PresentNodes
import Dims.ClientRequests
import Dims.RequestFraming
import Dims.Leases
import Dims.TrackerRegistration
import Dims.ContractTimes
import Dims.RankingUpdate
import Dims.RemoveInvalid
import Dims.FeeCheck
import Dims.CheckQueue
import Dims.BundleValidation
import Dims.FeeAgreement
import Dims.OrderedMultimap
import Dims.Wallet
import Dims.WalletDatabase
import Dims.PendingTransactions
import Dims.WalletLedger
import Dims.ClientActions
import Dims.DeadEnds
import Dims.ClientAdmissions
import Dims.SerializedSize
import Dims.StoredPositions
import Dims.BuddyDescent
import Dims.LiveAllocations
import Dims.ReadTransactions
import Dims.ChainAssembly
import Dims.MintedAmount
import Dims.BatchUnion
import Dims.FailedCreation
import Dims.TrackerLocalRanking
import Dims.FieldSets
import Dims.ThrowingReader
import Dims.TimeMedium
import Dims.RequestQueue
import Dims.SignedSums
import Dims.CoinSelection
import Dims.BalancedTransaction
import Dims.OwnCoins
import Dims.CoinOutpoints
import Dims.MonitorIncome
import Dims.OriginRequest
import Dims.ResponseParsing
import Dims.ResponseStream
import Dims.CachedHash
import Dims.MonitorResolution
import Dims.Replicas
import Dims.BundleTransfer
import Dims.TrackerNetwork
import Dims.ConcurrentBundles
import Dims.NetworkMessages
import Dims.BundlePhases
import Dims.PhaseSteps
import Dims.StalledBundles
import Dims.BundleAgreement
import Dims.PlacedTransactions
import Dims.PlacedAreas
import Dims.PlacedRecords
import Dims.LiveAreas
import Dims.SpentRecords
import Dims.WeakestPre
import Dims.GreedyMatching
import Dims.TokenStream
import Dims.ScriptNumber
import Dims.ScriptCode
import Dims.SignatureHash
import Dims.StackOps
import Dims.EvalScript
import Dims.ScriptLimits
import Dims.ScriptRules
import Dims.SpendingConditions
import Dims.SpendingAuthority
import Dims.SignSignature
import Dims.HashTree
import Dims.PartialMerkleTree
import Dims.BloomFilter
import Dims.FilteredBlocks
import Dims.ParentPath
import Dims.BlockIndex
import Dims.ChainTips
import Dims.BlockTree
import Dims.BestChain
import Dims.BlockLocator
import Dims.HeaderSync
import Dims.ChainRequests
import Dims.ChunkedReader
import Dims.ConnectionNode
import Dims.ConnectionSending
import Dims.NodeEvents
import Dims.MessageLink
import Dims.ReceiveLimit
