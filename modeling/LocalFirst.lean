import LocalFirst.Document.Agreement
import LocalFirst.Document.Json
import LocalFirst.Document.Order
import LocalFirst.Json.Reader
import LocalFirst.Main
import LocalFirst.Sync.Trace
import LocalFirst.Update.Typed
import LocalFirst.Proofs.HeadInvariant
import LocalFirst.Proofs.Ledger
import LocalFirst.Proofs.PushResult
import LocalFirst.Proofs.PullResult
import LocalFirst.Proofs.WireForm
import LocalFirst.Proofs.ScopedApplication
import LocalFirst.Proofs.Acknowledged
import LocalFirst.Proofs.Commuting
import LocalFirst.Proofs.Delivery
import LocalFirst.Proofs.Lens
import LocalFirst.Proofs.Footprint
import LocalFirst.Proofs.Traffic
import LocalFirst.Proofs.QueueRuns
import LocalFirst.Proofs.Writable
import LocalFirst.Proofs.PatchChain
import LocalFirst.Proofs.CommitRevert
import LocalFirst.Proofs.RevertedCommits
import LocalFirst.Proofs.PushedItems
import LocalFirst.Proofs.AcknowledgedInTurn
import LocalFirst.Proofs.QueueDrained
import LocalFirst.Proofs.BatchedPushes
import LocalFirst.Proofs.RangeConditions
import LocalFirst.Proofs.EqualInputs
import LocalFirst.Proofs.ConditionMeaning
import LocalFirst.Proofs.JoinedSet
import LocalFirst.Proofs.CanonicalForm
import LocalFirst.Proofs.FollowedInTurn
import LocalFirst.Proofs.StateForms
import LocalFirst.Proofs.QueueAdditions
import LocalFirst.Proofs.WrittenPaths
