import UnixSystems.GuardedRuns
import UnixSystems.RotationModel
import UnixSystems.RotationRuns
import UnixSystems.RotationSimulation
import UnixSystems.RotationLifetime
import UnixSystems.RotationWakeUps
import UnixSystems.RotationCounter
import UnixSystems.RotationDestroy
import UnixSystems.RotationReports
import UnixSystems.RotationWindow
import UnixSystems.CircularList
import UnixSystems.WrrModel
import UnixSystems.WrrConservation
import UnixSystems.WrrRoundRobin
import UnixSystems.FairModel
import UnixSystems.CoreModel
import UnixSystems.FairQueue
import UnixSystems.RunQueueFrame
import UnixSystems.RunQueueOrder
import UnixSystems.ClassSwitch
import UnixSystems.LevelOrder
import UnixSystems.PtreeModel
import UnixSystems.PtreeOrder
import UnixSystems.RotationSignals
import UnixSystems.RotationThreshold
import UnixSystems.CStrings
import UnixSystems.HttpModel
import UnixSystems.LexicalPaths
import UnixSystems.WrrBalance
import UnixSystems.HttpPaths
import UnixSystems.HttpLookup
import UnixSystems.PickNextTask
import UnixSystems.PolicyModel
import UnixSystems.PolicyEffects
import UnixSystems.PolicyClasses
import UnixSystems.WeightRace
import UnixSystems.FirstMinimum
import UnixSystems.WrrPlacement
import UnixSystems.WrrLoad
import UnixSystems.SaveRestore
import UnixSystems.WrrMigration
import UnixSystems.WrrCharge
import UnixSystems.WrappedQueue
import UnixSystems.WrrInfo
import UnixSystems.PtreeWrap
import UnixSystems.PtreeThreads
import UnixSystems.PtreeLookups
import UnixSystems.RingLog
import UnixSystems.ShellModel
import UnixSystems.ShellSuggest
import UnixSystems.ShellParse
import UnixSystems.ShellPrompt
import UnixSystems.ShellArguments
import UnixSystems.ShellLines
import UnixSystems.ShellRoundTrip
import UnixSystems.ShellPipeline
import UnixSystems.HttpServer
import UnixSystems.HttpAnswers
import UnixSystems.WrrSlices
import UnixSystems.FairRounds
import UnixSystems.Holders
import UnixSystems.Tallies
import UnixSystems.WaitLoop
import UnixSystems.WakeLoad
import UnixSystems.WakeProgress
import UnixSystems.RtBandwidth
import UnixSystems.RtPush
import UnixSystems.RtRuntime
import UnixSystems.RtThrottling
import UnixSystems.PriorityLists
import UnixSystems.RtQueue
import UnixSystems.RtQueueSound
import UnixSystems.RtQueueRuns
