import FlexiQ.Scheduler.Fencing
import FlexiQ.Step.Replay
import FlexiQ.Backends.Window
import FlexiQ.Sql.Fence
import FlexiQ.Backends.Superseded
import FlexiQ.Redis.Cancel
import FlexiQ.Backends.Settle
import FlexiQ.Redis.Retention
import FlexiQ.Backends.Locks
import FlexiQ.Dispatch.Conserve
import FlexiQ.Quota.Buckets
import FlexiQ.Quota.Grpc
import FlexiQ.Quota.Window
import FlexiQ.Workflow.Machine
import FlexiQ.Workflow.Outcomes
import FlexiQ.Workflow.Graph
import FlexiQ.Workflow.Listings
import FlexiQ.Redis.Subscriptions
import FlexiQ.Backends.Lineage
import FlexiQ.Worker.Slots
import FlexiQ.Worker.Allowlist
import FlexiQ.Mesh.Forward
import FlexiQ.Resilience.Episodes
import FlexiQ.Scheduler.Codel
import FlexiQ.Workflow.FanIn
import FlexiQ.Workflow.Incremental
