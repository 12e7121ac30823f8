import Kairon.Migration.Properties.CommittedCopy
import Kairon.Properties.AdapterAborts
import Kairon.Properties.AdmissionLimits
import Kairon.Properties.AgentImages
import Kairon.Properties.ApprovalBinding
import Kairon.Properties.ApprovalOnce
import Kairon.Properties.ApprovalRuns
import Kairon.Properties.AttestedNode
import Kairon.Properties.AuditAltered
import Kairon.Properties.AuditAppend
import Kairon.Properties.AuditWrites
import Kairon.Properties.BackupHandOver
import Kairon.Properties.BackupSucceeded
import Kairon.Properties.BootImages
import Kairon.Properties.BudgetGuards
import Kairon.Properties.CiliumIdentity
import Kairon.Properties.CiliumPolicy
import Kairon.Properties.ClientKey
import Kairon.Properties.EdgePackets
import Kairon.Properties.EdgeRules
import Kairon.Properties.ExclusiveCpus
import Kairon.Properties.GroupNames
import Kairon.Properties.ImageBlobs
import Kairon.Properties.LoginAttempts
import Kairon.Properties.MigrationRelease
import Kairon.Properties.MissedSlots
import Kairon.Properties.OidcIdentity
import Kairon.Properties.PasswordList
import Kairon.Properties.PhaseOwner
import Kairon.Properties.PolicyPushes
import Kairon.Properties.QuotaDecisions
import Kairon.Properties.ReadonlyVolumes
import Kairon.Properties.ResetSessions
import Kairon.Properties.RestoreCopy
import Kairon.Properties.ResumedVictims
import Kairon.Properties.RuntimeCleanup
import Kairon.Properties.RuntimeNames
import Kairon.Properties.SetConvergence
import Kairon.Properties.SharedSession
import Kairon.Properties.SnapshotCopies
import Kairon.Properties.SnapshotRequest
import Kairon.Properties.StaleRules
import Kairon.Properties.StatusPatch
import Kairon.Properties.TlsHost
import Kairon.Properties.TopologyLimits
import Kairon.Properties.VolumeCapacity
import Kairon.Properties.VolumeFiles
import Kairon.Properties.VolumeNames
