import Fulcrum.Word
import Fulcrum.Block
import Fulcrum.DownloadBlocksTask
import Fulcrum.DownloadBlocksTask.Run
import Fulcrum.DownloadBlocksTask.Invariant
import Fulcrum.DownloadBlocksTask.Pipeline
import Fulcrum.RPCMsgId
import Fulcrum.HeightMap
import Fulcrum.StateMachine
import Fulcrum.Controller
import Fulcrum.Controller.System
import Fulcrum.Controller.Headers
import Fulcrum.Controller.TaskMap
import Fulcrum.Controller.Stale
import Fulcrum.Controller.Reassembly
import Fulcrum.Controller.Conservation
import Fulcrum.Controller.Progress
import Fulcrum.Controller.Liveness
import Fulcrum.Controller.Diagram
import Fulcrum.Controller.Completion
import Fulcrum.Controller.UpToDate
import Fulcrum.Controller.Tasks
import Fulcrum.GetChainInfoTask
