import Tasq.Client.Failure
import Tasq.Client.Gather

/-! The two threads of one client: the caller's, and the gathering thread, which
runs `_gather_results` once the first `connect` has started it. They share the
client; the loop reads the results map and completes futures, and no caller's
call reads a future. An exception out of the loop ends the thread, and
`start()` raises on a thread that has ended, so the ZMQ `connect`, which starts
the thread when it is not alive, raises from then on. -/
namespace Tasq
open TasqClient

namespace TasqClient

/-- The client with every future forgotten: what the caller's calls read. -/
def eraseFutures (c : TasqClient) : TasqClient := { c with futures := fun _ => none }

/-- An outcome with the client's futures forgotten. -/
def eraseOutcome {α : Type} : Outcome α → Outcome α
  | .ok a c => .ok a c.eraseFutures
  | .error e c => .error e c.eraseFutures

@[simp] theorem afterErase {α : Type} (r : Outcome α) : after (eraseOutcome r) = (after r).eraseFutures := by
  cases r <;> rfl

/-- A method that reads no future: on the client with its futures forgotten it
does what it does on the client, but for the futures. -/
def IgnoresFutures {α : Type} (m : Method α) : Prop :=
  ∀ c, eraseOutcome (m c.eraseFutures) = eraseOutcome (m c)

theorem IgnoresFutures.congr {α : Type} {m : Method α} (h : IgnoresFutures m) {c d : TasqClient}
    (same : c.eraseFutures = d.eraseFutures) : eraseOutcome (m c) = eraseOutcome (m d) := by
  rw [← h c,same,h d]

theorem scheduleIgnoresFutures (name : Option JobKey) (uuid : Nat) (call : Call) :
    IgnoresFutures (schedule name uuid call) := fun c => by
  cases hc : c.isConnected <;> by_cases hf : c.faults.head? = some true <;>
    simp [schedule,hc,hf,eraseFutures,eraseOutcome,newFuture,store,send,brokerCall]

theorem replayIgnoresFutures (jobs : List Job) : IgnoresFutures (replay jobs) := by
  induction jobs with
  | nil => intro c; rfl
  | cons job younger ih =>
    intro c
    unfold replay
    dsimp only
    rw [show c.eraseFutures.faults = c.faults from rfl]
    split_ifs
    · rfl
    · let next (d : TasqClient) := (({ d with pending := younger.reverse }).stored job.jobId).transmitted job
      exact (ih (next c.eraseFutures)).symm.trans (ih (next c))

theorem connectWithEq {prelude : Method Unit} {setsFlag} (c : TasqClient) :
    connectWith prelude setsFlag c = if c.isConnected then .ok () c else
      match prelude c with
      | .ok () c' => replay c'.pending.reverse c'
      | .error e c' => .error e c' := by
  rcases connectWithCases (rfl : connectWith prelude setsFlag c = _) with
    ⟨online,same⟩ | ⟨off,c',started,same⟩ | ⟨off,e,c',started,same⟩
  · simp [same,online]
  all_goals simp [same,off,started]

theorem connectWithIgnoresFutures {prelude : Method Unit} {setsFlag} (h : IgnoresFutures prelude) :
    IgnoresFutures (connectWith prelude setsFlag) := fun c => by
  rw [connectWithEq,connectWithEq]
  cases hc : c.isConnected
  · have off : c.eraseFutures.isConnected = false := hc
    rw [off,if_neg Bool.false_ne_true,if_neg Bool.false_ne_true]
    have started := h c
    rcases p : prelude c with ⟨⟨⟩,c1⟩ | ⟨e,c1⟩ <;> rcases p' : prelude c.eraseFutures with ⟨⟨⟩,c1'⟩ | ⟨e',c1'⟩ <;>
      rw [p,p'] at started <;>
      simp only [eraseOutcome,EStateM.Result.ok.injEq,EStateM.Result.error.injEq,reduceCtorEq,true_and] at started <;>
      dsimp only
    · have pending : c1'.pending = c1.pending := by have := congrArg TasqClient.pending started; exact this
      rw [pending]
      exact (replayIgnoresFutures _).congr started
    · rw [eraseOutcome,eraseOutcome,started.1,started.2]
  · have online : c.eraseFutures.isConnected = true := hc
    rw [online,if_pos rfl,if_pos rfl]
    rfl

theorem connectPreludeIgnoresFutures (cls : ClientClass) : IgnoresFutures (connectPrelude cls) := fun c => by
  cases cls
  · by_cases hf : c.faults.head? = some true
    · simp [connectPrelude,BaseTasqClient.connectPrelude,hf,brokerConnect,brokerCall,eraseFutures,eraseOutcome]
    · cases hg : c.gatherer <;>
        simp [connectPrelude,BaseTasqClient.connectPrelude,hf,hg,brokerConnect,brokerCall,setConnected,
          ThreadState.isAlive,startGatherer,eraseFutures,eraseOutcome]
  all_goals cases hg : c.gatherer <;>
    simp [connectPrelude,connectPreludeNoBroker,hg,setConnected,startGatherer,eraseFutures,eraseOutcome]

theorem connectIgnoresFutures : IgnoresFutures TasqClient.connect := fun c => by
  rw [connectEq,connectEq]
  exact connectWithIgnoresFutures (connectPreludeIgnoresFutures c.cls) c

theorem disconnectIgnoresFutures : IgnoresFutures disconnect := fun c => by
  rw [disconnectEq,disconnectEq]
  rfl

theorem closeIgnoresFutures : IgnoresFutures close := fun c => by
  rw [closeEq,closeEq]
  rfl

theorem scheduleBlockingIgnoresFutures (name : Option JobKey) (uuid : Nat) (call : Call) :
    IgnoresFutures (scheduleBlocking name uuid call) := fun c => by
  cases hc : c.isConnected
  · simp [scheduleBlocking,hc,eraseFutures,eraseOutcome]
  · simp only [scheduleBlocking,hc,show c.eraseFutures.isConnected = true from hc,bindApply,getApply,Bool.not_true,
      Bool.false_eq_true,if_false,pureApply]
    exact scheduleIgnoresFutures name uuid call c

theorem discardIgnoresFutures {α : Type} {m : Method α} (h : IgnoresFutures m) : IgnoresFutures (discard m) := by
  have unit : ∀ c, eraseOutcome (discard m c) = match eraseOutcome (m c) with
      | .ok _ c' => .ok () c'
      | .error e c' => .error e c' := by
    intro c
    show eraseOutcome (EStateM.map _ m c) = _
    unfold EStateM.map
    cases m c <;> rfl
  intro c
  rw [unit,unit,h]

end TasqClient

theorem Fifo.Op.callIgnoresFutures (op : Fifo.Op) : IgnoresFutures op.call := by
  cases op with
  | schedule name uuid call => exact discardIgnoresFutures (scheduleIgnoresFutures name uuid call)
  | scheduleBlocking name uuid call => exact discardIgnoresFutures (scheduleBlockingIgnoresFutures name uuid call)
  | connect => exact connectIgnoresFutures
  | disconnect => exact disconnectIgnoresFutures
  | close => exact closeIgnoresFutures

theorem runsIgnoreFutures (ops : List Fifo.Op) {c d : TasqClient} (same : c.eraseFutures = d.eraseFutures) :
    (Failure.runsCatching c ops).eraseFutures = (Failure.runsCatching d ops).eraseFutures := by
  induction ops generalizing c d with
  | nil => exact same
  | cons op ops ih =>
    apply ih
    rw [← afterErase,← afterErase,(Fifo.Op.callIgnoresFutures op).congr same]

theorem deliverOnlyFutures (r : JobResult) (c : TasqClient) : (after (deliver r c)).eraseFutures = c.eraseFutures := by
  unfold deliver setResult
  split
  · rfl
  · split <;> rfl

theorem gatherStepOnlyFutures (cls : ClientClass) (jobResult : Local) (received : Received) (c : TasqClient) :
    (after (gatherStep cls jobResult received c)).eraseFutures = c.eraseFutures := by
  rcases gatherStepCases cls jobResult received c with same | ⟨r,same⟩ <;> rw [same]
  exact deliverOnlyFutures r c

/-- A process holding one client, which its two threads share, and the
gathering loop's local `job_result`. -/
structure Session where
  client : TasqClient
  jobResult : Local

def Session.init (cls : ClientClass) (faults : List Bool) : Session := ⟨TasqClient.init cls faults,none⟩

/-- What happens next in the process: a call of the caller's thread, which
catches what the call raises, or one turn of the gathering loop over what its
receive gives. -/
inductive Event where
  | call (op : Fifo.Op)
  | gather (received : Received)
  deriving DecidableEq, Repr

/-- The loop turns while its thread is alive. An exception out of the loop ends
`run()`, and with it the thread. -/
def Session.step (s : Session) : Event → Session
  | .call op => { s with client := after (op.call s.client) }
  | .gather received =>
    if s.client.gatherer.isAlive then
      match gatherStep s.client.cls s.jobResult received s.client with
      | .ok jobResult c => ⟨c,jobResult⟩
      | .error _ c => ⟨{ c with gatherer := .stopped },s.jobResult⟩
    else s

def Session.run : Session → List Event → Session
  | s, [] => s
  | s, e :: es => (s.step e).run es

/-- The caller's calls of an interleaving, in order. -/
def Event.calls : List Event → List Fifo.Op
  | [] => []
  | .call op :: es => op :: Event.calls es
  | .gather _ :: es => Event.calls es

open Failure

theorem Session.stepKeeps (e : Event) {s : Session} (stopped : s.client.gatherer = .stopped) :
    Keeps s.client (s.step e).client := by
  cases e with
  | call op => exact Failure.stepKeeps op (.inl stopped)
  | gather received =>
    simp only [Session.step,stopped,ThreadState.isAlive,Bool.false_eq_true,if_false]
    exact .refl _

theorem Session.runKeeps (events : List Event) {s : Session} (stopped : s.client.gatherer = .stopped) :
    Keeps s.client (s.run events).client := by
  induction events generalizing s with
  | nil => exact .refl _
  | cons e es ih =>
    have first := Session.stepKeeps e stopped
    exact first.trans (ih (first.gatherer.trans stopped))

/-- A turn that leaves the thread alive changes only the futures. -/
theorem Session.gatherTurn (s : Session) (received : Received)
    (alive : (s.step (.gather received)).client.gatherer ≠ .stopped) :
    (s.step (.gather received)).client.eraseFutures = s.client.eraseFutures := by
  have only := gatherStepOnlyFutures s.client.cls s.jobResult received s.client
  simp only [Session.step] at alive ⊢
  split_ifs at alive ⊢
  · revert alive only
    cases gatherStep s.client.cls s.jobResult received s.client with
    | ok jobResult c => exact fun only _ => only
    | error e c => exact fun _ alive => absurd rfl alive
  · rfl

/-- Once the gathering thread has ended, the client is deaf: whatever the
caller calls and whatever the broker delivers, no future becomes done, the
thread stays ended, and the jobs buffered at that point stay in the queue as its
oldest part, since every `connect` of a disconnected client raises before its
loop. -/
theorem deadGathererDeaf (s : Session) (events : List Event) (stopped : s.client.gatherer = .stopped) :
    (s.run events).client.gatherer = .stopped ∧
    (∀ i v, (s.run events).client.futures i = some v → s.client.futures i = some v) ∧
    ∃ newer, (s.run events).client.pending = newer ++ s.client.pending :=
  have keeps := Session.runKeeps events stopped
  ⟨keeps.gatherer.trans stopped,keeps.futures,keeps.pending⟩

/-- A fresh ZMQ client over a broker that never raises: `connect()`, then the
loop's first receive raises `ZMQError` and the loop reads `job_result` unbound. -/
def zmqDeafSession : Session := (Session.init .zmq []).run [.call .connect,.gather (.failed false)]

/-- Then the caller disconnects, schedules `f` as `a`, connects again, and the
result of `a` arrives. -/
def afterDeath : List Event :=
  [.call .disconnect,.call (.schedule (some (.name "a")) 0 ⟨"f",[],[]⟩),.call .connect,
    .gather (.result ⟨.name "a",.success,some "1",none,0⟩)]

theorem zmqFailedReceiveDeafens :
    zmqDeafSession.client.gatherer = .stopped ∧
    ((zmqDeafSession.run afterDeath).client.gatherer = .stopped ∧
      (∀ i v, (zmqDeafSession.run afterDeath).client.futures i = some v → zmqDeafSession.client.futures i = some v) ∧
      ∃ newer, (zmqDeafSession.run afterDeath).client.pending = newer ++ zmqDeafSession.client.pending) ∧
    (zmqDeafSession.run afterDeath).client.pending = [Job.new (.name "a") 0 ⟨"f",[],[]⟩] := by
  have fixture : zmqDeafSession = ⟨{ connectedClient .zmq with gatherer := .stopped },none⟩ := by
    show (Session.mk (connectedClient .zmq) none).run [.gather (.failed false)] = _
    rw [connectedClientEq]
    rfl
  have stopped : zmqDeafSession.client.gatherer = .stopped := by rw [fixture]
  refine ⟨stopped,deadGathererDeaf zmqDeafSession afterDeath stopped,?_⟩
  rw [fixture,connectedClientEq]
  rfl

/-- A fresh ZMQ client: `connect()`, a result for a name never scheduled,
`schedule(f, name='a')`, and the result of `a`. -/
def liveEvents : List Event :=
  [.call .connect,.gather (.result ⟨.name "b",.success,none,none,0⟩),
    .call (.schedule (some (.name "a")) 0 ⟨"f",[],[]⟩),.gather (.result ⟨.name "a",.success,some "1",none,0⟩)]

end Tasq
