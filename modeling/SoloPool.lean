import SoloPool.Lib.Outcome
import SoloPool.Lib.Bytes
import SoloPool.Bitcoin.Template
import SoloPool.Lib.Run
import SoloPool.Lib.Sha256
import SoloPool.Lib.Window
import SoloPool.Mining.Validator
import SoloPool.Proofs.Template
import SoloPool.Proofs.Validator
import SoloPool.Config
import SoloPool.Mining.Engine
import SoloPool.Proofs.Engine
import SoloPool.Mining.EngineLoop
import SoloPool.Proofs.EngineLoop
import SoloPool.Proofs.Headers
import SoloPool.Mining.Concurrent
import SoloPool.Proofs.Concurrent
import SoloPool.Proofs.Payout
import SoloPool.Network.Session
import SoloPool.Protocol.Sv2.Session
import SoloPool.Bitcoin.Rpc
import SoloPool.Lib.Disk
import SoloPool.Mining.Archive
import SoloPool.Network.Server
import SoloPool.Proofs.Archive
import SoloPool.Proofs.Server
import SoloPool.Proofs.Extranonce
import SoloPool.Proofs.Delivery
import SoloPool.Proofs.Credit
import SoloPool.Lib.Tasks
import SoloPool.Metrics
import SoloPool.Network.Handlers
import SoloPool.Network.Pool
import SoloPool.Proofs.BestShare
import SoloPool.Proofs.Channel
import SoloPool.Proofs.Handover
import SoloPool.Proofs.Presence
import SoloPool.Proofs.Restart
import SoloPool.Proofs.Versions
import SoloPool.Lib.Ip
import SoloPool.Lib.Json
import SoloPool.Lib.Reader
import SoloPool.Lib.Sliding
import SoloPool.Network.Dashboard
import SoloPool.Network.LineReader
import SoloPool.Proofs.Coinbase
import SoloPool.Proofs.Difficulty
import SoloPool.Proofs.LineReader
import SoloPool.Proofs.RateLimiter
import SoloPool.Proofs.Saved
import SoloPool.Protocol.Configure
import SoloPool.Mining.Submission
import SoloPool.Proofs.Configure
import SoloPool.Proofs.Dashboard
import SoloPool.Proofs.Submission
import SoloPool.Proofs.Panics
import SoloPool.Proofs.RejectWindow
import SoloPool.Proofs.BanList
import SoloPool.Proofs.Noise
import SoloPool.Bitcoin.Cookie
import SoloPool.Bitcoin.Gbt
import SoloPool.Bitcoin.Zmq
import SoloPool.Lib.Faults
import SoloPool.Lib.Links
import SoloPool.Network.Listener
import SoloPool.Network.Rig
import SoloPool.Proofs.Authority
import SoloPool.Proofs.Cookie
import SoloPool.Proofs.Device
import SoloPool.Proofs.Gbt
import SoloPool.Proofs.HonestShare
import SoloPool.Proofs.Listener
import SoloPool.Proofs.ShareLog
import SoloPool.Proofs.Zmq
import SoloPool.Lib.Stream
import SoloPool.Proofs.Messages
import SoloPool.Config.Overrides
import SoloPool.Proofs.Overrides
