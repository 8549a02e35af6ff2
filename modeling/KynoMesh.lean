import KynoMesh.Lib.Transition
import KynoMesh.Lib.Loop
import KynoMesh.Lib.GoStd
import KynoMesh.Lib.Dict
import KynoMesh.Lib.Keyed
import KynoMesh.Lib.BigEndian
import KynoMesh.Lib.Retention
import KynoMesh.Lib.StepFn
import KynoMesh.Lib.WeightedMean
import KynoMesh.Lib.Exact
import KynoMesh.Lib.Approach
import KynoMesh.Lib.Runs
import KynoMesh.Lib.Slice
import KynoMesh.Lib.Tally
import KynoMesh.Lib.Ticker
import KynoMesh.Api.Template
import KynoMesh.Api.Types
import KynoMesh.Pods.Replicas
import KynoMesh.Pods.Reconcile
import KynoMesh.Pods.Fleet
import KynoMesh.Pods.PodSpec
import KynoMesh.Pods.Refinement
import KynoMesh.Pods.World
import KynoMesh.Pods.Controller
import KynoMesh.Pods.Rollout
import KynoMesh.Pods.Quiescence
import KynoMesh.Pods.Calls
import KynoMesh.Pods.Faults
import KynoMesh.Driftwatch.Watcher
import KynoMesh.Agentset.Children
import KynoMesh.Agentset.Validator
import KynoMesh.Agentset.Services
import KynoMesh.Agentset.Topology
import KynoMesh.Agentset.Convergence
import KynoMesh.Pods.Containers
import KynoMesh.Rater.Metrics
import KynoMesh.Rater.Exact
import KynoMesh.Rater.Totals
import KynoMesh.Rater.Peak
import KynoMesh.Rater.Rate
import KynoMesh.Rater.CardGate
import KynoMesh.Rater.PeerHashes
import KynoMesh.History.Sample
import KynoMesh.History.Buffer
import KynoMesh.History.Codec
import KynoMesh.History.Store
import KynoMesh.History.Log
import KynoMesh.History.Concurrent
import KynoMesh.History.Registry
import KynoMesh.History.Sanitize
import KynoMesh.History.InPlace
import KynoMesh.Sampling.Collector
import KynoMesh.Sampling.Attribution
import KynoMesh.Sampling.Forget
import KynoMesh.Scaling.Estimator
import KynoMesh.Scaling.Decide
import KynoMesh.Scaling.Autoscaler
import KynoMesh.Scaling.Bands
import KynoMesh.Scaling.Knee
import KynoMesh.Scaling.Target
import KynoMesh.Scaling.Settle
import KynoMesh.Scaling.Overflow
import KynoMesh.Scaling.Units
import KynoMesh.Shared.Discovery
import KynoMesh.Shared.Hosts
import KynoMesh.Shared.WorkSet
import KynoMesh.Broker.RateLimit
import KynoMesh.Broker.Termination
import KynoMesh.Broker.GrpcProxy
import KynoMesh.Broker.Sse
import KynoMesh.Broker.SseLines
import KynoMesh.Broker.Introspection
import KynoMesh.Broker.Admission
import KynoMesh.Broker.GrpcStreams
import KynoMesh.Shared.Queue
import KynoMesh.Rater.Buffers
import KynoMesh.Lib.Client
import KynoMesh.Agentset.Objects
import KynoMesh.Agentset.Upsert
import KynoMesh.Agentset.Status
import KynoMesh.Rater.DriftReport
import KynoMesh.Driftwatch.Reload
import KynoMesh.Webhook.Startup
import KynoMesh.Webhook.Agreement
import KynoMesh.Pods.Trigger
import KynoMesh.Pods.Endpoints
