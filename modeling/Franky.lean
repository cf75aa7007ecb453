import Franky.Protocol
import Franky.Foundation.Machine
import Franky.Foundation.MachineInt
import Franky.Foundation.LinearProbing
import Franky.Foundation.Overwriting
import Franky.Foundation.Sorting
import Franky.Foundation.PrefixTree
import Franky.Foundation.ArenaTree
import Franky.Foundation.ByteStream
import Franky.Foundation.ByteSink
import Franky.Foundation.SevenBits
import Franky.Foundation.Subdivision
import Franky.Foundation.Mixing
import Franky.Foundation.Memo
import Franky.Agent.Profiler
import Franky.Agent.Timer
import Franky.Agent.TimerPeriod
import Franky.Agent.Counts
import Franky.Agent.Accounting
import Franky.Agent.TraceTable
import Franky.Agent.TraceHash
import Franky.Agent.MergedTraces
import Franky.Agent.MethodTable
import Franky.Agent.Overflow
import Franky.Agent.Signals
import Franky.Agent.CompileRegistry
import Franky.Agent.CompileFlags
import Franky.Agent.Report
import Franky.Agent.RequestLoop
import Franky.Agent.Requests
import Franky.Agent.SessionEnd
import Franky.Agent.SendResponse
import Franky.Agent.Frames
import Franky.Agent.Recorder
import Franky.Agent.StopReports
import Franky.Agent.Life
import Franky.Agent.Environments
import Franky.Agent.Attach
import Franky.Plugin.FlameTree
import Franky.Plugin.ProfilingResult
import Franky.Plugin.FlameComponent
import Franky.Plugin.FlameBoxes
import Franky.Plugin.FlameZoom
import Franky.Plugin.FlameHeight
import Franky.Plugin.FlameNavigation
import Franky.Plugin.FrameLabels
import Franky.Plugin.RemoteService
import Franky.Plugin.AttachService
import Franky.Plugin.AttachHistory
import Franky.Plugin.Lifetime
import Franky.Plugin.LifetimeGraph
import Franky.Plugin.LifetimeShutdown
import Franky.Plugin.LifetimeRuns
import Franky.Plugin.LifetimeCreate
import Franky.Plugin.ProfilerTab
import Franky.Plugin.TabRequests
import Franky.Plugin.TabActions
import Franky.EndToEnd.ResultImage
import Franky.EndToEnd.Showable
import Franky.EndToEnd.Truthful
import Franky.EndToEnd.FullTables
import Franky.EndToEnd.HotMethods
import Franky.EndToEnd.LifeGraphs
import Franky.EndToEnd.TabAndAgent
import Franky.EndToEnd.Handshake
import Franky.EndToEnd.Labels
import Franky.EndToEnd.LoadedAgent
import Franky.EndToEnd.System
import Franky.EndToEnd.SystemRuns
