import Cnmsql.Webhook.StatusRuns
import Cnmsql.Controller.FailoverPreference
import Cnmsql.RoleReconciler.Handoff
import Cnmsql.Binlog.Through
import Cnmsql.Binlog.Disowning
import Cnmsql.Binlog.SegmentOrder
import Cnmsql.Binlog.Draining
import Cnmsql.Binlog.PurgeGate
import Cnmsql.Binlog.RetentionReplay
import Cnmsql.Replication.GtidSlices
import Cnmsql.Controller.TimelineVerdicts
import Cnmsql.Controller.TimelineRuns
import Cnmsql.Binlog.TimelineMerge
import Cnmsql.Binlog.PrunedReplay
import Cnmsql.Instance.GroupJoin
import Cnmsql.Controller.ArchiveGap
import Cnmsql.Controller.RecoveryGuard
import Cnmsql.Controller.IndexWriters
import Cnmsql.Controller.FailoverTime
import Cnmsql.Controller.BackupSelection
import Cnmsql.Engine.PrunedVerdicts
import Cnmsql.Binlog.DeadTails
import Cnmsql.Controller.UpgradeGate
import Cnmsql.Controller.VersionMoves
import Cnmsql.Controller.LogicalRestore
import Cnmsql.Controller.InlineUsers
import Cnmsql.Binlog.RotationCadence
import Cnmsql.Binlog.GapAgreement
import Cnmsql.Binlog.ForkBackstop
import Cnmsql.Controller.FenceGuard
import Cnmsql.Controller.GroupObservation
import Cnmsql.Binlog.TimePrefix
import Cnmsql.Binlog.MinimalCover
import Cnmsql.Engine.MissingCounts
import Cnmsql.Controller.Rollout
import Cnmsql.Binlog.DisownedRanges
import Cnmsql.Binlog.Scan
