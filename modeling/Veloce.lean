import Veloce.Ledger.Reconnect
import Veloce.Lifecycle.Agreement
import Veloce.Lifecycle.UsageRow
import Veloce.Lifecycle.Omissions
import Veloce.Lifecycle.ExitCode
import Veloce.Lifecycle.SoundReaping
import Veloce.Ha.Failover
import Veloce.Ha.Presence
import Veloce.Ha.Election
import Veloce.Ha.Rank
import Veloce.Ha.Forwarding
import Veloce.Ha.Completion
import Veloce.Lifecycle.Dependents
import Veloce.Controller.RetryBuffer
import Veloce.Handlers.SendOrder
import Veloce.Handlers.StepBudget
import Veloce.Worker.StepOutput
import Veloce.Worker.Reconnects
import Veloce.Worker.Incarnations
import Veloce.Lifecycle.InputFiles
import Veloce.Worker.Cgroups
import Veloce.Common.MessageCodec
import Veloce.Common.NoiseEnds
import Veloce.Common.Transport
import Veloce.Worker.PmiTransparent
import Veloce.Ha.Times
import Veloce.Controller.ComponentRegistry
import Veloce.Controller.Reservations
import Veloce.Controller.ApiMiddleware
import Veloce.Fileserver.S3Completion
import Veloce.Scheduler.Requirements
import Veloce.Worker.PreExec
import Veloce.Handlers.StepRanks
import Veloce.Ledger.Preemption
import Veloce.Worker.Apptainer
import Veloce.Worker.RankRun
import Veloce.Worker.RemoteLaunch
import Veloce.Controller.LogSlices
import Veloce.Handlers.JobOutput
import Veloce.Worker.LogManager
import Veloce.Handlers.CwlJobs
import Veloce.FrontEnd.Resubmit
import Veloce.FrontEnd.ArrayWait
import Veloce.FrontEnd.SlurmCommand
import Veloce.Controller.LogMaps
import Veloce.Controller.SealedState
import Veloce.Controller.RateLimit
import Veloce.Controller.HistoryPartition
import Veloce.Controller.PrometheusLabels
import Veloce.Worker.GlobMeaning
import Veloce.Worker.Inputs
import Veloce.Worker.OutputAccess
