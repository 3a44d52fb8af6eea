import Outmdsd.Foundations.Bytes
import Outmdsd.Foundations.Cut
import Outmdsd.Foundations.Decimals
import Outmdsd.Foundations.Exceptions
import Outmdsd.Foundations.Interning
import Outmdsd.Foundations.Json
import Outmdsd.Foundations.Ledger
import Outmdsd.Foundations.Mutexes
import Outmdsd.Foundations.Numerals
import Outmdsd.Foundations.Places
import Outmdsd.Foundations.Printable
import Outmdsd.Foundations.Progress
import Outmdsd.Foundations.Replay
import Outmdsd.Foundations.Runs
import Outmdsd.Foundations.Significant
import Outmdsd.Foundations.Spelling
import Outmdsd.Foundations.Streams
import Outmdsd.Foundations.Transcoding
import Outmdsd.Item.IdMgr
import Outmdsd.Item.DjsonLogItem
import Outmdsd.Item.DoubleText
import Outmdsd.Item.Framing
import Outmdsd.Item.Receiving
import Outmdsd.Item.SchemaIdentity
import Outmdsd.Item.PayloadJson
import Outmdsd.Item.SharedItem
import Outmdsd.Item.ComposeThreads
import Outmdsd.Item.UniqueIds
import Outmdsd.Item.IdMgrThreads
import Outmdsd.Item.LogItem
import Outmdsd.Cache.ConcurrentMap
import Outmdsd.Cache.Linearizable
import Outmdsd.Cache.ConcurrentQueue
import Outmdsd.Cache.QueueHistory
import Outmdsd.Cache.Wakeups
import Outmdsd.Reader.DataReader
import Outmdsd.Reader.Acks
import Outmdsd.Reader.AckBatch
import Outmdsd.Reader.LineEvents
import Outmdsd.Socket.Send
import Outmdsd.Socket.PartialSends
import Outmdsd.Socket.ConnectRetry
import Outmdsd.Socket.BackOff
import Outmdsd.Socket.SocketClient
import Outmdsd.Socket.Undisturbed
import Outmdsd.Socket.Descriptors
import Outmdsd.Socket.WholeMessages
import Outmdsd.Socket.Stopped
import Outmdsd.Socket.Interrupted
import Outmdsd.Reader.HangUp
import Outmdsd.Logger.Wire
import Outmdsd.Logger.Backup
import Outmdsd.Logger.Removals
import Outmdsd.Logger.ResendRound
import Outmdsd.Logger.SocketLogger
import Outmdsd.Logger.Redelivery
import Outmdsd.Logger.ResendPace
import Outmdsd.Logger.DataSender
import Outmdsd.Logger.BufferedLogger
import Outmdsd.Logger.WaitUntilAllSend
import Outmdsd.Logger.Lifetime
import Outmdsd.Logger.Destructor
import Outmdsd.Logger.Accounting
import Outmdsd.Logger.ServerView
import Outmdsd.Plugin.Record
import Outmdsd.Plugin.SchemaManager
import Outmdsd.Plugin.SchemaThreads
import Outmdsd.Plugin.Write
import Outmdsd.Plugin.MessageJson
import Outmdsd.Plugin.TimeIndex
import Outmdsd.Plugin.RecordSize
import Outmdsd.Plugin.ValueTypes
import Outmdsd.Plugin.NumericColumns
import Outmdsd.Plugin.ChunkRetry
import Outmdsd.Plugin.Delivery
