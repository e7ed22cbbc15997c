import Meridian.Theorems.EncapSignal
import Meridian.Theorems.Checksum
import Meridian.Theorems.Atomicity
import Meridian.Theorems.Sockhash
import Meridian.Theorems.CommitPlans
import Meridian.Theorems.CompileOrder
import Meridian.Theorems.ProxyAuthz
import Meridian.Theorems.AdsStream
import Meridian.Theorems.PolicyLeak
import Meridian.Theorems.PinnedSchema
import Meridian.Theorems.Registry
import Meridian.Theorems.Breaker
import Meridian.Theorems.Rotation
import Meridian.Theorems.CrdCompile
import Meridian.Theorems.DropReports
import Meridian.Theorems.DeniedSeries
import Meridian.Theorems.FlowCounters
import Meridian.Theorems.GeneveOptions
import Meridian.Theorems.Broadcaster
import Meridian.Theorems.PeerIdentity
import Meridian.Theorems.StreamInspection
import Meridian.Theorems.StartupOnce
import Meridian.Theorems.InstallAgain
import Meridian.Theorems.GateCheck
import Meridian.Theorems.ForceRotate
import Meridian.Theorems.Outbound
import Meridian.Theorems.WatchRecovery
import Meridian.Theorems.BootstrapRpc
import Meridian.Theorems.ClusterEnforcement
