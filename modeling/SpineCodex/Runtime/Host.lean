import SpineCodex.Spine.Replay

/-!
# The host of a runtime

A host holds the handles and the prepared commits that the runtime gave it, calls the
runtime with them and keeps the durable log.  A handle is consumed when its sampling is
finished and a prepared commit when it is installed, as ownership demands in the source.
-/

namespace SpineCodex

structure Host where
  runtime : SamplingRuntime
  handles : List SamplingHandle
  prepared : List PreparedSamplingCommit
  log : List ReplayInput
  deriving DecidableEq

/-- One call of the runtime. -/
inductive HostOp where
  | observe (characters : List SpineChar)
  | begin
  | started (handle : SamplingHandle)
  | register (key : String)
  | stage (key : String) (origin : ExecutionOrigin) (operation : SpineOperationFact)
  | finishExecution (key : String) (succeeded : Bool)
  | finish (handle : SamplingHandle) (terminal : SamplingTerminal) (inputTokens : Option ℕ)
  | abort (handle : SamplingHandle)
  | install (prepared : PreparedSamplingCommit)
  | discard (prepared : PreparedSamplingCommit)
  | compact (barrier : SpineCompactBarrierV1)
  | continueIn (thread : ThreadNamespace)
  deriving DecidableEq

namespace Host

/-- A host around a runtime that has not been used. -/
def start (runtime : SamplingRuntime) (log : List ReplayInput) : Host := ⟨runtime, [], [], log⟩

/-- The host owns what it passes to the runtime. -/
def Allowed (host : Host) : HostOp → Prop
  | .started handle | .finish handle _ _ | .abort handle => handle ∈ host.handles
  | .install prepared | .discard prepared => prepared ∈ host.prepared
  | .observe _ | .begin | .register _ | .stage _ _ _ | .finishExecution _ _ | .compact _
  | .continueIn _ => True

instance (host : Host) (op : HostOp) : Decidable (host.Allowed op) := by
  cases op <;> unfold Allowed <;> infer_instance

/-- The host after a call.  The log gets the characters that entered the ledger, the started
records, the installed commits and the barriers of successful compactions. -/
def perform (host : Host) : HostOp → Host
  | .observe characters =>
      let runtime := (host.runtime.observeSource characters).1
      let count := runtime.planner.source.cells.length - host.runtime.planner.source.cells.length
      { host with
        runtime := runtime
        log := host.log ++ (characters.take count).map .source }
  | .begin =>
      match host.runtime.beginSampling with
      | (runtime, .ok handle) => { host with
          runtime := runtime
          handles := host.handles ++ [handle] }
      | (runtime, _) => { host with runtime := runtime }
  | .started handle =>
      match host.runtime.samplingStartedRecord handle with
      | (runtime, .ok record) => { host with
          runtime := runtime
          log := host.log ++ [.archive record] }
      | (runtime, _) => { host with runtime := runtime }
  | .register key => { host with runtime := (host.runtime.registerExecution key).1 }
  | .stage key origin operation => { host with
      runtime := (host.runtime.stageExecution key origin operation).1 }
  | .finishExecution key succeeded => { host with
      runtime := (host.runtime.finishExecution key succeeded).1 }
  | .finish handle terminal inputTokens =>
      let handles := host.handles.erase handle
      match host.runtime.finishSampling handle terminal inputTokens with
      | (runtime, .ok (.prepared commit)) => { host with
          runtime := runtime
          handles := handles
          prepared := host.prepared ++ [commit] }
      | (runtime, _) => { host with runtime := runtime, handles := handles }
  | .abort handle => { host with runtime := (host.runtime.abortSampling handle).1 }
  | .install commit =>
      let prepared := host.prepared.erase commit
      match host.runtime.installPrepared commit with
      | (runtime, .ok ()) => { host with
          runtime := runtime
          prepared := prepared
          log := host.log ++ [.archive (.samplingCommit commit.record)] }
      | (runtime, _) => { host with runtime := runtime, prepared := prepared }
  | .discard commit => { host with
      runtime := (host.runtime.discardUnpersistedPrepared commit).1 }
  | .compact barrier =>
      match host.runtime.compact barrier with
      | (runtime, .ok _) => { host with
          runtime := runtime
          log := host.log ++ [.compact barrier] }
      | (runtime, _) => { host with runtime := runtime }
  | .continueIn thread => { host with runtime := (host.runtime.continueInNamespace thread).1 }

/-- One call by the host. -/
inductive Step (host : Host) : Host → Prop
  | perform (op : HostOp) (h : host.Allowed op) : Step host (host.perform op)

/-- The hosts that can exist: around a new runtime, around a runtime that was recovered from a log
by canonical replay, and after any calls. -/
inductive Reachable : Host → Prop
  | new (thread : ThreadNamespace) (epoch : ContextEpoch) (config : SpineConfig) :
      Reachable (start (.new thread epoch config) [])
  | recovered (host : Host) (replay : CanonicalReplay) (result : PreparedReplay)
      (hhost : Reachable host) (h : replay.prepare host.log = .ok result) :
      Reachable (start result.candidate host.log)
  | step {host host' : Host} (hhost : Reachable host) (h : Step host host') : Reachable host'

/-- Whether a host owns what a list of calls passes to the runtime. -/
def mayRun (host : Host) : List HostOp → Bool
  | [] => true
  | op :: rest => decide (host.Allowed op) && mayRun (host.perform op) rest

end Host

end SpineCodex
