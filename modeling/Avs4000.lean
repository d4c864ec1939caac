import Avs4000.BlockFifoRefinement
import Avs4000.V49Packet
import Avs4000.Lib.Run
import Avs4000.V49Agreement
import Avs4000.Lib.Frames
import Avs4000.SocketTxBuffer
import Avs4000.TcpTxSignalClient
import Avs4000.TxInvariant
import Avs4000.TxWireFormat
import Avs4000.V49Framing
import Avs4000.TxFlush
import Avs4000.SocketRxBuffer
import Avs4000.TcpRxSignalClient
import Avs4000.RxInvariant
import Avs4000.RxTrack
import Avs4000.RxSamples
import Avs4000.RxFlush
import Avs4000.QVariant
import Avs4000.TcpJSONClient
import Avs4000.JSONSteps
import Avs4000.JSONLock
import Avs4000.JSONMatching
import Avs4000.JSONBusy
import Avs4000.JSONOrder
import Avs4000.RxSteps
import Avs4000.BlockFifoBulk
import Avs4000.BlockFifoNoEmpty
import Avs4000.TxPump
import Avs4000.RawTxSystem
import Avs4000.RawRxSystem
import Avs4000.RawRxTrack
import Avs4000.RawRxSamples
import Avs4000.RxBlocks
import Avs4000.RxClose
import Avs4000.TxWork
import Avs4000.JSONErrors
import Avs4000.Lib.Lines
import Avs4000.ReadAvailable
import Avs4000.AVS4000Client
import Avs4000.AVS4000Blocks
import Avs4000.BlockSteps
import Avs4000.BlockLifecycle
import Avs4000.Lib.Ownership
import Avs4000.SignalOwnership
import Avs4000.JSONCommands
import Avs4000.RequestFraming
import Avs4000.V49Grammar
import Avs4000.V49Bounds
import Avs4000.RefUpdate
import Avs4000.SignalConnect
import Avs4000.TxStall
import Avs4000.RxTags
import Avs4000.TxAccounting
import Avs4000.RxAccounting
import Avs4000.JSONListings
import Avs4000.JSONReconnect
import Avs4000.Lib.Pipe
import Avs4000.Loopback
import Avs4000.RawLoopback
import Avs4000.JSONLedger
import Avs4000.Lib.Rank
import Avs4000.Lib.Simulation
import Avs4000.LockedFifo
import Avs4000.LockedFifoRefinement
import Avs4000.RawReturns
import Avs4000.RxReturns
import Avs4000.TxReturns
import Avs4000.BlockFifoTest
import Avs4000.PumpLifecycle
import Avs4000.PumpReturns
import Avs4000.BlockMirror
import Avs4000.AVSAPICon
import Avs4000.JSONRest
import Avs4000.LoopbackRest
