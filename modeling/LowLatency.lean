import LowLatency.Lib.Ring
import LowLatency.Common.Types
import LowLatency.Common.MemPool
import LowLatency.Common.OptMemPool
import LowLatency.Lib.Allocator
import LowLatency.Common.PoolRuns
import LowLatency.Lib.RingBuffer
import LowLatency.Lib.SortContract
import LowLatency.Lib.Unwinding
import LowLatency.Lib.Clearing
import LowLatency.Lib.Buffer
import LowLatency.Lib.Framing
import LowLatency.Common.LFQueue
import LowLatency.Common.Logging
import LowLatency.Common.TCPSocket
import LowLatency.Common.SendAndRecv
import LowLatency.Common.Wire
import LowLatency.Book.Ladder
import LowLatency.Book.InRange
import LowLatency.Book.Heap
import LowLatency.Book.HeapInsert
import LowLatency.Book.HeapRemove
import LowLatency.Book.Leads
import LowLatency.Lib.PriceTime
import LowLatency.Book.Queue
import LowLatency.Book.LevelRing
import LowLatency.Book.Filed
import LowLatency.Book.Repr
import LowLatency.Book.Shelved
import LowLatency.Matcher.MEOrderBook
import LowLatency.Matcher.Sweep
import LowLatency.Matcher.Owners
import LowLatency.Matcher.Widths
import LowLatency.Matcher.Reference
import LowLatency.Matcher.Invariant
import LowLatency.Matcher.Refine
import LowLatency.Matcher.Book
import LowLatency.Matcher.Capacity
import LowLatency.Matcher.PriceSafety
import LowLatency.Matcher.Resting
import LowLatency.Matcher.Cancellable
import LowLatency.Matcher.UnorderedMapMEOrderBook
import LowLatency.MarketData.Updates
import LowLatency.Matcher.Feed
import LowLatency.Matcher.Lifecycle
import LowLatency.Matcher.Conservation
import LowLatency.Matcher.MatchingEngine
import LowLatency.Matcher.Rings
import LowLatency.Matcher.Outgoing
import LowLatency.OrderServer.FIFOSequencer
import LowLatency.OrderServer.OrderServer
import LowLatency.OrderServer.Connections
import LowLatency.OrderServer.Burst
import LowLatency.OrderServer.TCPServer
import LowLatency.OrderServer.Dropped
import LowLatency.OrderServer.Malformed
import LowLatency.OrderGw.OrderGateway
import LowLatency.Session.Model
import LowLatency.Session.Agreement
import LowLatency.Strategy.MarketOrderBook
import LowLatency.Strategy.Replica
import LowLatency.Strategy.BestPrices
import LowLatency.Strategy.Clear
import LowLatency.Strategy.Recovery
import LowLatency.MarketData.SnapshotSynthesizer
import LowLatency.MarketData.MarketIds
import LowLatency.Matcher.OrderIds
import LowLatency.MarketData.Publisher
import LowLatency.MarketData.MarketDataConsumer
import LowLatency.MarketData.GapFree
import LowLatency.MarketData.Datagrams
import LowLatency.MarketData.LiveOrders
import LowLatency.MarketData.GapRecovery
import LowLatency.MarketData.Snapshot
import LowLatency.MarketData.Mirror
import LowLatency.MarketData.RecoveryEnds
import LowLatency.Matcher.UpdateWidths
import LowLatency.MarketData.Multicast
import LowLatency.Matcher.AnyOrder
import LowLatency.Strategy.OrderManager
import LowLatency.Strategy.PreTradeRisk
import LowLatency.Strategy.StrategyEngine
import LowLatency.Strategy.PositionKeeper
import LowLatency.Strategy.FairPrice
import LowLatency.Strategy.TickerIndependence
import LowLatency.Strategy.Requests
import LowLatency.Protocol.Model
import LowLatency.Protocol.Slots
import LowLatency.Protocol.Safety
import LowLatency.Protocol.PositionLimit
import LowLatency.Protocol.Orphans
import LowLatency.Protocol.MoveOrders
import LowLatency.Protocol.ZeroSum
import LowLatency.Protocol.Exposure
import LowLatency.Session.Cuts
import LowLatency.Session.Trading
import LowLatency.Session.RandomTraders
import LowLatency.Session.Strategies
import LowLatency.Strategy.PassiveQuotes
import LowLatency.MarketData.Printout
import LowLatency.Session.Progress
