import Smith.FiniteMaps
import Smith.Packing
import Smith.Runs
import Smith.KeyedLoops
import Smith.PacedLoops
import Smith.Binary64
import Smith.IPv4
import Smith.Leases
import Smith.Overwrites
import Smith.PacketForwarding
import Smith.Paths
import Smith.UrlPaths
import Smith.RandomDraws
import Smith.RemoteCalls
import Smith.SqlTables
import Smith.Types
import Smith.Registry
import Smith.Scheduler
import Smith.SchedulerPacking
import Smith.SchedulerCapacity
import Smith.SchedulerStability
import Smith.RebalancePlan
import Smith.Rebalance
import Smith.RebalanceOrder
import Smith.Placement
import Smith.ReplicaSpread
import Smith.SchedulerOverflow
import Smith.DesiredState
import Smith.Reconciler
import Smith.ReconcilerLoops
import Smith.ReconcilerPass
import Smith.Cluster
import Smith.ContainerTracking
import Smith.StrandedContainers
import Smith.RealLoad
import Smith.FailedStops
import Smith.PushRecords
import Smith.NodeReturn
import Smith.ReconcilerPacing
import Smith.RollingBudget
import Smith.CalmPass
import Smith.RollConvergence
import Smith.SubnetAllocator
import Smith.ServiceStore
import Smith.NodePortPins
import Smith.ControlPlane
import Smith.Manifest
import Smith.AdmittedRequests
import Smith.VolumeDirs
import Smith.Apply
import Smith.ApplyRuns
import Smith.ApplyReferences
import Smith.ApplyConvergence
import Smith.ContainerRuntime
import Smith.AgentUnassign
import Smith.InPlaceRecreation
import Smith.PrunePreview
import Smith.ApplySecrets
import Smith.EvictionRace
import Smith.HostPort
import Smith.NodeTables
import Smith.NodeMembership
import Smith.StatusAgreement
import Smith.IngressProxy
import Smith.RouteManager
import Smith.Json
import Smith.JsonText
import Smith.SqliteStore
import Smith.Commands
import Smith.Iptables
import Smith.ServiceProxy
import Smith.ServiceChains
import Smith.ServiceSync
import Smith.NodePortRules
import Smith.PublishedPorts
import Smith.ServiceDispatch
import Smith.ServiceAdmission
import Smith.FailedReads
import Smith.SpecHash
import Smith.ReplicaNames
import Smith.BackendSelection
import Smith.HealthMonitor
import Smith.Certificates
import Smith.Migration
import Smith.SelfHealing
import Smith.Failover
import Smith.ControlPlaneRestart
import Smith.AgentMembership
import Smith.FleetSteps
import Smith.SubnetAgreement
import Smith.ContainerLeases
import Smith.NodeNetwork
import Smith.CrossNodeTraffic
import Smith.PublicApi
import Smith.AgentRequests
import Smith.EdgeTraffic
import Smith.DurationText
import Smith.WorkloadTexts
