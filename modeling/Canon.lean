import Canon.FaultProofBisection
import Canon.FaultProofDeadlines
import Canon.StateRootLedger
import Canon.FaultProofLocks
import Canon.DepositRange
import Canon.StepVMBulk
import Canon.StepVMCommits
import Canon.SmtCellProofs
import Canon.CbeAgreement
import Canon.NonceReplay
import Canon.DisputeLifecycle
import Canon.MigrationReplay
import Canon.QuorumCounting
import Canon.LogRoundTrip
import Canon.BalanceScans
import Canon.IndexerReplay
import Canon.IndexerSession
import Canon.HostFraming
import Canon.HostVerdicts
import Canon.ReorgWindowRuns
import Canon.IdentityRuns
import Canon.WatcherReorgs
import Canon.WatcherForks
import Canon.ActionWire
import Canon.LatencyHistogram
import Canon.LogTail
