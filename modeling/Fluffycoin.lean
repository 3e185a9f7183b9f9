import Fluffycoin.Utils.Details
import Fluffycoin.Utils.Trace
import Fluffycoin.Utils.SortedMap
import Fluffycoin.Utils.Base64
import Fluffycoin.Utils.Json
import Fluffycoin.Utils.Decimal
import Fluffycoin.Utils.FileTools
import Fluffycoin.Utils.SteadyClock
import Fluffycoin.Utils.Multipart
import Fluffycoin.Utils.Lockstep
import Fluffycoin.Utils.Tagged
import Fluffycoin.Utils.ObjectStore
import Fluffycoin.Utils.Heap
import Fluffycoin.Utils.AnyMap
import Fluffycoin.Ossl.Convert
import Fluffycoin.Utils.BinData
import Fluffycoin.Utils.SafeData
import Fluffycoin.Utils.BinDataMemory
import Fluffycoin.Utils.BinDataList
import Fluffycoin.Ossl.Keys
import Fluffycoin.Der.Octets
import Fluffycoin.Der.Codec
import Fluffycoin.Block.Asn1
import Fluffycoin.Block.Objects
import Fluffycoin.Block.Copy
import Fluffycoin.Block.Der
import Fluffycoin.Ossl.PbkdfKey
import Fluffycoin.Block.RoundTrip
import Fluffycoin.Block.Content
import Fluffycoin.Alg.Base58
import Fluffycoin.Alg.Base58Buffers
import Fluffycoin.Alg.Address
import Fluffycoin.Db.Binary
import Fluffycoin.Db.Tables
import Fluffycoin.Db.Session
import Fluffycoin.Curator.DbIntegrator
import Fluffycoin.Curator.Integrate
import Fluffycoin.Curator.Rows
import Fluffycoin.Curator.ChainSafety
import Fluffycoin.Curator.Atomicity
import Fluffycoin.Curator.Restart
import Fluffycoin.Curator.GenesisOwners
import Fluffycoin.Curator.BlockIntegrator
import Fluffycoin.Curator.Pending
import Fluffycoin.Curator.PendingLedger
import Fluffycoin.Curator.Serve
import Fluffycoin.Curator.Host
import Fluffycoin.Curator.OwnIndex
import Fluffycoin.Curator.LoadOrder
import Fluffycoin.Curator.GoodBlocks
import Fluffycoin.Curator.Quiescence
import Fluffycoin.Curator.Tasks
import Fluffycoin.Curator.Interleaving
import Fluffycoin.Curator.Race
import Fluffycoin.Block.Trailing
import Fluffycoin.Block.Numbers
import Fluffycoin.Block.MineAction
import Fluffycoin.Block.Signed
import Fluffycoin.Block.Unions
import Fluffycoin.Alg.Wallet
import Fluffycoin.Alg.WalletFile
import Fluffycoin.Alg.Canonical
import Fluffycoin.Alg.BlockFilename
import Fluffycoin.Curator.BlockStorage
import Fluffycoin.Curator.Boot
import Fluffycoin.Alg.PeerAuth
import Fluffycoin.P2p.BruteForce
import Fluffycoin.P2p.PeerSessions
import Fluffycoin.P2p.Handshake
import Fluffycoin.Cli.Genesis
import Fluffycoin.Zmq.Server
import Fluffycoin.Zmq.Sending
import Fluffycoin.Zmq.Subscriber
import Fluffycoin.Zmq.Client
import Fluffycoin.Zmq.Conversation
import Fluffycoin.Async.UncontrolledSocket
import Fluffycoin.Svc.MergedDetails
import Fluffycoin.Svc.ApiPort
import Fluffycoin.Svc.Readiness
import Fluffycoin.Svc.EventSubscriptionMap
import Fluffycoin.Svc.EventLoop
import Fluffycoin.Svc.EventBus
import Fluffycoin.Svc.EventProcessor
import Fluffycoin.Async.TreasureTrove
import Fluffycoin.Svc.ApiRequests
import Fluffycoin.Svc.Service
import Fluffycoin.Utils.ByteOrder
import Fluffycoin.Db.Result
import Fluffycoin.Curator.InitLoop
import Fluffycoin.Curator.ShardChecks
import Fluffycoin.Ossl.Prng
import Fluffycoin.Alg.GeneratedAddress
import Fluffycoin.Alg.WalletLoad
import Fluffycoin.Alg.WalletLife
import Fluffycoin.Block.Specie
import Fluffycoin.Block.Time
import Fluffycoin.Async.Socket
import Fluffycoin.Utils.DelimitedString
import Fluffycoin.Utils.ArgParser
import Fluffycoin.Svc.InitArgs
import Fluffycoin.P2p.Node
import Fluffycoin.P2p.StakeKey
import Fluffycoin.Async.BuriedTreasure
