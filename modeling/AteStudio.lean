import AteStudio.CpSat.Pareto
import AteStudio.Dispatcher.Agreement
import AteStudio.Dispatcher.Abort
import AteStudio.Scheduler.Dispatch
import AteStudio.Scheduler.Uut
import AteStudio.Scheduler.Shutdown
import AteStudio.Scheduler.Abort
import AteStudio.Scheduler.Debugger
import AteStudio.Worker.OneRun
import AteStudio.Worker.Breakpoints
import AteStudio.Worker.Recovery
import AteStudio.Relay.Survival
import AteStudio.Sse.Replay
import AteStudio.Offline.ScriptCrash
import AteStudio.Offline.Drain
import AteStudio.Offline.Payloads
import AteStudio.Recorder
import AteStudio.Recorder.Diff
import AteStudio.ResourceManager
import AteStudio.Barrier
import AteStudio.Resume.Restart
import AteStudio.Offline.EventBuffer
import AteStudio.Executor.Verdicts
import AteStudio.Parser.Editor
import AteStudio.Parser.Compile
import AteStudio.Frontend.RoundTrip
import AteStudio.Fixture
import AteStudio.Simulation.Coverage
import AteStudio.Planner.Fences
import AteStudio.Planner.OperatingPoint
import AteStudio.Checkpoint.Answers
import AteStudio.Checkpoint.Identity
import AteStudio.Checkpoint.OperatorView
import AteStudio.Worker.Control
import AteStudio.Simulation.Prediction
import AteStudio.Spc.Processor
import AteStudio.Scripts.Paths
import AteStudio.Distribution
import AteStudio.Calibration
import AteStudio.Traceability
import AteStudio.Fusion
import AteStudio.Breaker
import AteStudio.Scheduler.Budget
import AteStudio.VersionPoller
import AteStudio.LeafNode
import AteStudio.Handoff
import AteStudio.ParallelMutex
import AteStudio.Scheduler.WakeUp
import AteStudio.Frames
