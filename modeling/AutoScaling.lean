import AutoScaling.Foundation.LabelledSystem
import AutoScaling.Foundation.IndexedSum
import AutoScaling.Master.RegistryRefinement
import AutoScaling.Master.Handlers
import AutoScaling.Cache.WriteThrough
import AutoScaling.Cache.ConcurrentGet
import AutoScaling.Cache.NeverBack
import AutoScaling.Master.LostUpdates
import AutoScaling.Master.BootOrder
import AutoScaling.Foundation.Roster
import AutoScaling.Cluster.Server
import AutoScaling.Cluster.System
import AutoScaling.Cluster.Membership
import AutoScaling.Cluster.MidTier
import AutoScaling.Cluster.Provision
import AutoScaling.Cluster.RequestLog
import AutoScaling.Cluster.Requests
import AutoScaling.Cluster.Departure
import AutoScaling.Cluster.FrontScaleIn
import AutoScaling.Cluster.OneSlave
import AutoScaling.Cluster.FrontRoutine
import AutoScaling.Cluster.MidRoutine
import AutoScaling.Cluster.MidIdle
import AutoScaling.Cache.ReadOnly
import AutoScaling.Master.Deregistration
import AutoScaling.Master.TierLookup
import AutoScaling.Cluster.Booting
import AutoScaling.Cluster.MasterRoutine
import AutoScaling.Foundation.Emission
import AutoScaling.Cluster.Launches
import AutoScaling.Cluster.Outage
import AutoScaling.Cluster.Budget
import AutoScaling.Cluster.Arrivals
import AutoScaling.Foundation.WriteOnce
import AutoScaling.Foundation.Potential
import AutoScaling.Foundation.Monitor
import AutoScaling.Cache.Snapshot
import AutoScaling.Cache.Answers
import AutoScaling.Master.Completion
import AutoScaling.Foundation.Simulation
import AutoScaling.Foundation.Linearization
import AutoScaling.Master.Linearizable
import AutoScaling.Master.Removal
import AutoScaling.Cluster.Naming
import AutoScaling.Cluster.StartUp
import AutoScaling.Cluster.SlaveSteps
import AutoScaling.Cluster.FrontPasses
import AutoScaling.Cluster.Projections
import AutoScaling.Cluster.Overload
import AutoScaling.Cluster.WorkConservation
import AutoScaling.Cluster.WaitingTime
import AutoScaling.Cluster.MasterWork
import AutoScaling.Cluster.MidReadings
