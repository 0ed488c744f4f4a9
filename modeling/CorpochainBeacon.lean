import CorpochainBeacon.Types
import CorpochainBeacon.Store
import CorpochainBeacon.Chain
import CorpochainBeacon.BodyValidation
import CorpochainBeacon.ReceiveBlock
import CorpochainBeacon.PreValidation
import CorpochainBeacon.ReceiveBlockSpec
import CorpochainBeacon.Atomicity
import CorpochainBeacon.Engine
import CorpochainBeacon.Rewards
import CorpochainBeacon.Ancestry
import CorpochainBeacon.Reorg
import CorpochainBeacon.HeaviestChain
import CorpochainBeacon.PeakChain
import CorpochainBeacon.DeliveryOrder
import CorpochainBeacon.CacheIndex
import CorpochainBeacon.CacheCleaning
import CorpochainBeacon.Pipeline
import CorpochainBeacon.RangeQueries
import CorpochainBeacon.SubSlots
import CorpochainBeacon.RecentWindow
import CorpochainBeacon.StateChange
import CorpochainBeacon.CompactProofs
import CorpochainBeacon.Restart
import CorpochainBeacon.Issuance
import CorpochainBeacon.MainChainReads
import CorpochainBeacon.Convergence
import CorpochainBeacon.TentativeRecords
import CorpochainBeacon.CachedPeak
import CorpochainBeacon.BuiltRecords
