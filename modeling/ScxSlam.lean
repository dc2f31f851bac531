import ScxSlam.Executor.Admission
import ScxSlam.Executor.Wakeups
import ScxSlam.Executor.Profiles
import ScxSlam.Executor.Restart
import ScxSlam.DependentGraph.Freshness
import ScxSlam.DependentGraph.Selection
import ScxSlam.DependentGraph.Atomic
import ScxSlam.PipelineDemo.Hinting
import ScxSlam.PipelineDemo.CpuWindow
import ScxSlam.PipelineDemo.Acceptance
import ScxSlam.Workload.Drain
import ScxSlam.Workload.Lifecycle
import ScxSlam.Workload.Traces
import ScxSlam.RosPipeline.Opportunity
import ScxSlam.BagIndex.Adapter
import ScxSlam.ExecutionTrace.Cutoff
import ScxSlam.PipelineDemo.Deadline
import ScxSlam.PipelineDemo.Camera
import ScxSlam.PipelineDemo.Options
import ScxSlam.BagIndex.Accept
import ScxSlam.E4Eval.Anchors
import ScxSlam.Executor.Expiry
import ScxSlam.RosPipeline.Ablation
import ScxSlam.BagIndex.Session
import ScxSlam.E4Eval.Controls
import ScxSlam.RosPipeline.Callback
import ScxSlam.RosPipeline.Periodic
import ScxSlam.BagIndex.FirstStamp
import ScxSlam.Workload.ControlAge
import ScxSlam.Lib.Edf
import ScxSlam.Lib.Csv
import ScxSlam.EdfWorkload.Priority
import ScxSlam.Workload.Accepted
import ScxSlam.Workload.Remaining
import ScxSlam.Workload.Fairness
import ScxSlam.PipelineDemo.Fairness
import ScxSlam.Executor.Fairness
import ScxSlam.ExecutionTrace.Timeline
