import SdnController.Lib.Exec
import SdnController.Lib.Steps
import SdnController.Lib.Simulations
import SdnController.Lib.Memory
import SdnController.Lib.Regions
import SdnController.Lib.Scans
import SdnController.Lib.Frames
import SdnController.Lib.Forwarding
import SdnController.Lib.HashChains
import SdnController.Lib.KeyedLists
import SdnController.Lib.Heap
import SdnController.Lib.LinkedLists
import SdnController.Lib.ListPrograms
import SdnController.Lib.ListRemovals
import SdnController.Lib.ListEffects
import SdnController.Lib.ListSteps
import SdnController.OpenFlow
import SdnController.MyGraph
import SdnController.Controller
import SdnController.LearningSwitch
import SdnController.Wire
import SdnController.Refinement
import SdnController.Received
import SdnController.Runs
import SdnController.Learning
import SdnController.Isolation
import SdnController.FlowLists
import SdnController.SwitchTable
import SdnController.Mirror
import SdnController.Delivery
import SdnController.Xid
import SdnController.Destinations
import SdnController.Bounds
import SdnController.ReceivePath
import SdnController.FrameReads
import SdnController.Returns
import SdnController.Framing
import SdnController.Exchanges
import SdnController.Fragments
import SdnController.AnswerStream
import SdnController.FlowMods
import SdnController.PacketOuts
import SdnController.Flooding
import SdnController.Features
import SdnController.Insertion
import SdnController.Replay
import SdnController.EventLoop
import SdnController.Connections
import SdnController.Rounds
import SdnController.LinkDown
import SdnController.Paths
import SdnController.Network
import SdnController.Arrivals
import SdnController.Waiting
import SdnController.Descriptors
import SdnController.OnHeap
import SdnController.FlowRemoval
import SdnController.Shutdown
import SdnController.Interrupted
import SdnController.Smartalloc
import SdnController.Ledger
import SdnController.Tracking
import SdnController.Requests
import SdnController.Accounts
import SdnController.History
import SdnController.LiveBlocks
import SdnController.NamedBlocks
import SdnController.TableMemory
import SdnController.HeapRuns
