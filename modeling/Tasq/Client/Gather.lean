import Tasq.Client.Ops

/-! The `_gather_results` loops, one iteration at a time, over any sequence of
what the broker connection's receive gives. The loop only reads the results map
and completes futures; `set_result` on a done future raises, and nothing in the
loops catches that. The ZMQ loop keeps `job_result` from the previous iteration
when a receive raises. -/
namespace Tasq

/-- What one receive on the broker connection gives the loop. -/
inductive Received where
  | result (r : JobResult)
  /-- `None`: nothing arrived. -/
  | empty
  /-- The receive raised: a transient `ZMQError`, or, when `terminated`,
  `ContextTerminated`, the transport's permanent shutdown. -/
  | failed (terminated : Bool)
  deriving DecidableEq, Repr

/-- An exception that ends a gathering loop. -/
inductive GatherError where
  /-- `UnboundLocalError`: `job_result` read before any receive returned. -/
  | unboundLocal
  /-- `InvalidStateError`: `set_result` on a future that is already done. -/
  | invalidState
  /-- A receive of the Redis or RabbitMQ loop raised; they catch nothing. -/
  | receive
  deriving DecidableEq, Repr

/-- The gathering thread: it shares the client with the caller. -/
abbrev Gather (α : Type) := EStateM GatherError TasqClient α

/-- The loop's local `job_result`: unbound, `None`, or a result. -/
abbrev Local := Option (Option JobResult)

namespace TasqClient

/-- The client after the future `i` is completed with `r`. -/
def completed (c : TasqClient) (i : Nat) (r : JobResult) : TasqClient :=
  { c with futures := Function.update c.futures i (some r) }

/-- `Future.set_result`: raises on a future that is already done. -/
def setResult (i : Nat) (r : JobResult) : Gather Unit := fun c =>
  match c.futures i with
  | none => .ok () (c.completed i r)
  | some _ => .error .invalidState c

/-- `self._results[job_result.name].set_result(job_result)` under
`except KeyError`: a result for an unknown name is dropped. -/
def deliver (r : JobResult) : Gather Unit := fun c =>
  match c.results r.name with
  | none => .ok () c
  | some i => setResult i r c

end TasqClient
open TasqClient

/-- One turn of `ZMQTasqClient._gather_results`. A raising receive is logged
and leaves `job_result` as it was; `if not job_result: continue` then reads it. -/
def ZMQTasqClient.gatherStep (jobResult : Local) (received : Received) : Gather Local := do
  let jobResult := match received with
    | .result r => some (some r)
    | .empty => some none
    | .failed _ => jobResult
  match jobResult with
  | none => throw .unboundLocal
  | some none => return jobResult
  | some (some r) => do deliver r; return jobResult

/-- One turn of the `_gather_results` loop that `RedisTasqClient` and
`RabbitMQTasqClient` share: `recv_result()` outside any `try`. -/
def gatherStepNoCatch (received : Received) : Gather Local :=
  match received with
  | .result r => do deliver r; return some (some r)
  | .empty => return some none
  | .failed _ => throw .receive

def RedisTasqClient.gatherStep (_ : Local) (received : Received) : Gather Local := gatherStepNoCatch received

def RabbitMQTasqClient.gatherStep (_ : Local) (received : Received) : Gather Local := gatherStepNoCatch received

/-- One turn of the gathering loop of the object's class. -/
def gatherStep (cls : ClientClass) (jobResult : Local) (received : Received) : Gather Local :=
  match cls with
  | .zmq => ZMQTasqClient.gatherStep jobResult received
  | .redis => RedisTasqClient.gatherStep jobResult received
  | .rabbitmq => RabbitMQTasqClient.gatherStep jobResult received

/-- `while True:` over the receives given, until an iteration raises; the
loop starts with `job_result` unbound. -/
def gatherResults (cls : ClientClass) : Local → List Received → Gather Unit
  | _, [] => pure ()
  | jobResult, received :: rest => do
    let jobResult ← gatherStep cls jobResult received
    gatherResults cls jobResult rest

end Tasq

namespace Tasq
open TasqClient

/-- What a gathering turn leaves alone; and a done future stays done with the
same result. -/
structure GatherFrame (c c' : TasqClient) : Prop where
  results : c'.results = c.results
  pending : c'.pending = c.pending
  sent : c'.sent = c.sent
  created : c'.created = c.created
  done : ∀ i v, c.futures i = some v → c'.futures i = some v

theorem GatherFrame.refl (c : TasqClient) : GatherFrame c c := ⟨rfl,rfl,rfl,rfl,fun _ _ h => h⟩

theorem GatherFrame.trans {a b c : TasqClient} (ab : GatherFrame a b) (bc : GatherFrame b c) :
    GatherFrame a c :=
  ⟨bc.results.trans ab.results,bc.pending.trans ab.pending,bc.sent.trans ab.sent,
    bc.created.trans ab.created,fun i v h => bc.done i v (ab.done i v h)⟩

theorem deliverFrame (r : JobResult) (c : TasqClient) : GatherFrame c (after (deliver r c)) := by
  unfold deliver setResult
  split
  · exact .refl c
  · split
    · rename_i i _ _ pendingNow
      refine ⟨rfl,rfl,rfl,rfl,fun j v h => ?_⟩
      have other : j ≠ i := by rintro rfl; simp_all
      simp [completed,Function.update_noteq other,h]
    · exact .refl c

theorem gatherStepResult (cls : ClientClass) (jobResult : Local) (r : JobResult) (c : TasqClient) :
    gatherStep cls jobResult (.result r) c = match deliver r c with
      | .ok _ c' => .ok (some (some r)) c'
      | .error e c' => .error e c' := by
  cases cls <;> simp only [gatherStep,ZMQTasqClient.gatherStep,RedisTasqClient.gatherStep,
    RabbitMQTasqClient.gatherStep,gatherStepNoCatch,bindApply,pureApply] <;>
    cases deliver r c <;> rfl

/-- Every turn of every class's loop either changes nothing or delivers one
result: the one it received, or, in the ZMQ loop after a raising receive, the
one its local `job_result` still holds. -/
theorem gatherStepDelivers (cls : ClientClass) (jobResult : Local) (received : Received) (c : TasqClient) :
    after (gatherStep cls jobResult received c) = c ∨
      ∃ r, (received = .result r ∨ jobResult = some (some r)) ∧
        after (gatherStep cls jobResult received c) = after (deliver r c) := by
  cases received with
  | result r => exact .inr ⟨r,.inl rfl,by rw [gatherStepResult]; cases deliver r c <;> rfl⟩
  | empty => cases cls <;> exact .inl rfl
  | failed terminated =>
    cases cls
    · rcases jobResult with _ | _ | r
      · exact .inl rfl
      · exact .inl rfl
      · refine .inr ⟨r,.inr rfl,?_⟩
        simp only [gatherStep,ZMQTasqClient.gatherStep,bindApply,pureApply]
        cases deliver r c <;> rfl
    all_goals exact .inl rfl

theorem gatherStepCases (cls : ClientClass) (jobResult : Local) (received : Received) (c : TasqClient) :
    after (gatherStep cls jobResult received c) = c ∨
      ∃ r, after (gatherStep cls jobResult received c) = after (deliver r c) :=
  (gatherStepDelivers cls jobResult received c).imp_right fun ⟨r,_,same⟩ => ⟨r,same⟩

/-- The local `job_result` a returning turn keeps holds the result it received
or the one it held before. -/
theorem gatherStepLocal {cls : ClientClass} {jobResult jobResult' : Local} {received : Received} {c c' : TasqClient}
    (h : gatherStep cls jobResult received c = .ok jobResult' c') {r : JobResult} (held : jobResult' = some (some r)) :
    received = .result r ∨ jobResult = some (some r) := by
  cases received with
  | result r' =>
    rw [gatherStepResult] at h
    split at h <;> cases h
    cases held
    exact .inl rfl
  | empty => cases cls <;> cases h <;> cases held
  | failed terminated =>
    cases cls
    · rcases jobResult with _ | _ | r'
      · cases h
      · cases h; cases held
      · simp only [gatherStep,ZMQTasqClient.gatherStep,bindApply,pureApply] at h
        split at h <;> cases h
        exact .inr held
    all_goals cases h

theorem gatherStepFrame (cls : ClientClass) (jobResult : Local) (received : Received) (c : TasqClient) :
    GatherFrame c (after (gatherStep cls jobResult received c)) := by
  rcases gatherStepCases cls jobResult received c with same | ⟨r,same⟩ <;> rw [same]
  · exact .refl c
  · exact deliverFrame r c

/-- Over a whole run of any class's loop, the results map is untouched and a
done future keeps its result. -/
theorem gatherResultsFrame (cls : ClientClass) :
    ∀ (jobResult : Local) (received : List Received) (c : TasqClient),
      GatherFrame c (after (gatherResults cls jobResult received c))
  | _, [], c => .refl c
  | jobResult, next :: rest, c => by
    have step := gatherStepFrame cls jobResult next c
    simp only [gatherResults,bindApply]
    split
    · rename_i jobResult' c' stepped
      rw [stepped,afterOk] at step
      exact step.trans (gatherResultsFrame cls jobResult' rest c')
    · rename_i e c' stepped
      rw [stepped,afterError] at step
      exact step

end Tasq

namespace Tasq
open TasqClient

/-- The gathering loops' handling of what they receive. In every class, a turn
that receives a result drops it when its name has no entry, completes the future
stored under its name when that future is pending, and otherwise raises
`InvalidStateError`, which ends the loop; a turn that receives nothing changes
nothing. The ZMQ loop catches `ContextTerminated` with a transient `ZMQError`
and goes on alike. Over any run of any loop, the results map is untouched and a
done future keeps its result. -/
theorem gatherHandling :
    (∀ cls jobResult r c, gatherStep cls jobResult (.result r) c =
      match c.results r.name with
      | none => .ok (some (some r)) c
      | some i => match c.futures i with
        | none => .ok (some (some r)) (c.completed i r)
        | some _ => .error .invalidState c) ∧
    (∀ cls jobResult c, gatherStep cls jobResult .empty c = .ok (some none) c) ∧
    (∀ jobResult, ZMQTasqClient.gatherStep jobResult (.failed true) =
      ZMQTasqClient.gatherStep jobResult (.failed false)) ∧
    (∀ cls jobResult received c, GatherFrame c (after (gatherResults cls jobResult received c))) := by
  refine ⟨fun cls jobResult r c => ?_,fun cls jobResult c => by cases cls <;> rfl,fun _ => rfl,
    fun cls => gatherResultsFrame cls⟩
  rw [gatherStepResult]
  unfold deliver setResult
  cases c.results r.name with
  | none => rfl
  | some i => dsimp only; cases c.futures i <;> rfl

/-- A connected Redis client with the job `a` in flight. -/
def inflightA : TasqClient := after (schedule (some (.name "a")) 0 ⟨"f",[],[]⟩ (connectedClient .redis))

def resultA : JobResult := ⟨.name "a",.success,some "3",none,0⟩

/-- The loop's guarantees, refuted: a result delivered twice makes the Redis
loop call `set_result` on a done future and die with `InvalidStateError`; and
the ZMQ loop goes on after `ContextTerminated`. -/
theorem duplicateResultKillsLoop :
    gatherResults .redis none [.result resultA,.result resultA] inflightA =
      .error .invalidState (inflightA.completed 0 resultA) ∧
    gatherStep .zmq (some none) (.failed true) inflightA = .ok (some none) inflightA := by
  refine ⟨?_,rfl⟩
  simp only [inflightA,connectedClientEq]
  rfl

/-- A connected ZMQ client after `schedule(f)` with no name, `uuid4()` giving 7. -/
def unnamedSent : TasqClient := after (schedule none 7 ⟨"f",[],[]⟩ (connectedClient .zmq))

/-- The result of the job `unnamedSent` sent, carrying the job's id. -/
def resultUnnamed : JobResult := ⟨.uuid 7,.success,some "3",none,0⟩

/-- `schedule` stores the future under the raw `name` keyword, `''`, while the
job it sends carries its generated id: the job's result is dropped as an unknown
key and the future `schedule` returned stays empty. -/
theorem unnamedResultDropped :
    unnamedSent.sent.map Job.jobId = [.uuid 7] ∧ unnamedSent.results JobKey.unnamed = some 0 ∧
    unnamedSent.futures 0 = none ∧ gatherResults .zmq none [.result resultUnnamed] unnamedSent = .ok () unnamedSent := by
  simp only [unnamedSent,connectedClientEq]
  exact ⟨by decide,by decide,by decide,rfl⟩

end Tasq

namespace Tasq
open TasqClient

/-- A connected ZMQ client with the job `a` in flight. -/
def zmqInflightA : TasqClient := after (schedule (some (.name "a")) 0 ⟨"f",[],[]⟩ (connectedClient .zmq))

end Tasq
