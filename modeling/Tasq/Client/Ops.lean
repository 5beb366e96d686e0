import Tasq.Client.State

/-! The client methods of `BaseTasqClient` and the `connect` overrides of
`RedisTasqClient` and `RabbitMQTasqClient`, one Python statement after another.
Each method gets one lemma saying everything it can do; later modules cite
those and never unfold a method. `schedule_blocking`'s final wait on the future
belongs to the gathering thread and is not part of the caller's effect here. -/
namespace Tasq.TasqClient

/-- The client after `TasqFuture()` and `self._results[name] = future`. -/
def stored (c : TasqClient) (name : JobKey) : TasqClient :=
  { c with futures := Function.update c.futures c.created none, created := c.created + 1,
           results := Function.update c.results name (some c.created) }

@[simp] theorem storedConnected (c : TasqClient) (name : JobKey) :
    (c.stored name).isConnected = c.isConnected := rfl
@[simp] theorem storedPending (c : TasqClient) (name : JobKey) :
    (c.stored name).pending = c.pending := rfl
@[simp] theorem storedSent (c : TasqClient) (name : JobKey) : (c.stored name).sent = c.sent := rfl
@[simp] theorem storedFaults (c : TasqClient) (name : JobKey) :
    (c.stored name).faults = c.faults := rfl
@[simp] theorem storedGatherer (c : TasqClient) (name : JobKey) :
    (c.stored name).gatherer = c.gatherer := rfl

/-- The client after a `send` that returned. -/
def transmitted (c : TasqClient) (job : Job) : TasqClient :=
  { c with sent := c.sent ++ [job], faults := c.faults.tail }

/-- The client after a broker call that raised. -/
def faulted (c : TasqClient) : TasqClient := { c with faults := c.faults.tail }

theorem sendCases {job c r} (h : send job c = r) :
    (c.faults.head? = some true ∧ r = .error .sendFailed c.faulted) ∨
    (c.faults.head? ≠ some true ∧ r = .ok () (c.transmitted job)) := by
  subst r
  unfold send brokerCall
  by_cases fault : c.faults.head? = some true
  · exact .inl ⟨fault,by simp [fault,faulted]⟩
  · exact .inr ⟨fault,by simp [fault,transmitted]⟩

/-- `BaseTasqClient.schedule`: a disconnected client buffers the job and
returns `None`; a connected one stores a new future under the raw `name`
keyword, sends the job, and returns the future. -/
def schedule (name : Option JobKey) (uuid : Nat) (call : Call) : Method (Option Nat) := do
  let name := name.getD JobKey.unnamed
  let job := Job.new name uuid call
  if !(← get).isConnected then
    modify fun c => { c with pending := Deque.appendleft c.pending job }
    return none
  let future ← newFuture
  store name future
  send job
  return some future

/-- Everything `schedule` can do. -/
theorem scheduleCases {name uuid call c r} (h : schedule name uuid call c = r) :
    (c.isConnected = false ∧ r = .ok none
      { c with pending := Deque.appendleft c.pending (Job.new (name.getD JobKey.unnamed) uuid call) }) ∨
    (c.isConnected = true ∧ c.faults.head? ≠ some true ∧ r = .ok (some c.created)
      ((c.stored (name.getD JobKey.unnamed)).transmitted (Job.new (name.getD JobKey.unnamed) uuid call))) ∨
    (c.isConnected = true ∧ c.faults.head? = some true ∧
      r = .error .sendFailed (c.stored (name.getD JobKey.unnamed)).faulted) := by
  subst r
  cases hc : c.isConnected
  · left
    simp [schedule,hc]
  · right
    by_cases hf : c.faults.head? = some true
    · right
      simp [schedule,hc,hf,newFuture,store,send,brokerCall,stored,faulted]
    · left
      simp [schedule,hc,hf,newFuture,store,send,brokerCall,stored,transmitted]

theorem scheduleKeepsConnected {name uuid call c v c'} (h : schedule name uuid call c = .ok v c')
    (connected : c.isConnected = true) : c'.isConnected = true := by
  rcases scheduleCases h with ⟨off,-⟩ | ⟨-,-,same⟩ | ⟨-,-,same⟩
  · simp_all
  · cases same; exact connected
  · cases same

theorem scheduleKeepsPending {name uuid call c v c'} (h : schedule name uuid call c = .ok v c')
    (connected : c.isConnected = true) : c'.pending = c.pending := by
  rcases scheduleCases h with ⟨off,-⟩ | ⟨-,-,same⟩ | ⟨-,-,same⟩
  · simp_all
  · cases same; rfl
  · cases same

/-- The body of `while self._pending:` in `connect`: pop the oldest buffered
job and schedule it again under its own id. The loop only runs once the flag is
set, which is what makes it end: a connected `schedule` never buffers. The
replayed job is named, so no identifier is drawn for it. -/
def drain (c : TasqClient) (connected : c.isConnected = true) : Outcome Unit :=
  match _popped : Deque.pop c.pending with
  | none => .ok () c
  | some (job,rest) =>
    match replayed : schedule (some job.jobId) 0 job.call { c with pending := rest } with
    | .ok _ c' => drain c' (scheduleKeepsConnected replayed connected)
    | .error e c' => .error e c'
termination_by c.pending.length
decreasing_by
  rw [scheduleKeepsPending replayed connected]
  exact Deque.popLength _popped

/-- `connect` on a disconnected client: run the class's steps up to the loop,
then the loop. -/
def connectWith (prelude : Method Unit)
    (setsFlag : ∀ {c c'}, prelude c = .ok () c' → c'.isConnected = true) : Method Unit := fun c =>
  if c.isConnected then .ok () c
  else match started : prelude c with
    | .ok () c' => drain c' (setsFlag started)
    | .error e c' => .error e c'

end Tasq.TasqClient

namespace Tasq.TasqClient

/-- The loop of `drain` unrolled over the buffered jobs, oldest first: each
turn leaves the younger jobs buffered, stores a future under the job's id and
sends the job. -/
def replay : List Job → TasqClient → Outcome Unit
  | [], c => .ok () c
  | job :: younger, c =>
    let c := { c with pending := younger.reverse }
    if c.faults.head? = some true then .error .sendFailed (c.stored job.jobId).faulted
    else replay younger ((c.stored job.jobId).transmitted job)

/-- One turn of `replay` is one turn of the drain loop: pop, then `schedule`. -/
theorem replayPopped {c job rest} (popped : Deque.pop c.pending = some (job,rest))
    (connected : c.isConnected = true) :
    replay c.pending.reverse c = match schedule (some job.jobId) 0 job.call { c with pending := rest } with
      | .ok _ c' => replay c'.pending.reverse c'
      | .error e c' => .error e c' := by
  rw [Deque.popSome popped]
  rcases scheduleCases (rfl : schedule (some job.jobId) 0 job.call { c with pending := rest } = _) with
    ⟨off,-⟩ | ⟨-,fine,same⟩ | ⟨-,fault,same⟩
  · simp_all
  · rw [same]
    simp only [replay,fine,if_false,Job.newReplay,Option.getD_some,List.reverse_reverse]
    rfl
  · rw [same]
    simp only [replay,fault,if_true,Option.getD_some,List.reverse_reverse]

/-- The drain loop replays the buffered jobs in submission order. -/
theorem drainReplay (c : TasqClient) (connected : c.isConnected = true) :
    drain c connected = replay c.pending.reverse c := by
  rw [drain]
  split
  · rename_i empty
    rw [Deque.popNone.mp empty]
    rfl
  · rename_i job rest popped
    rw [replayPopped popped connected]
    split
    · rename_i c' replayed
      simp only [replayed]
      have shorter : c'.pending.length < c.pending.length := by
        rw [scheduleKeepsPending replayed connected]
        exact Deque.popLength popped
      exact drainReplay c' _
    · rename_i c' replayed
      simp only [replayed]
termination_by c.pending.length

end Tasq.TasqClient

namespace Tasq
open TasqClient

/-- `self._is_connected = flag` -/
def setConnected (flag : Bool) : Method Unit := modify fun c => { c with isConnected := flag }

/-- The client after `self._is_connected = True`. -/
def TasqClient.flagged (c : TasqClient) : TasqClient := { c with isConnected := true }

namespace BaseTasqClient

/-- `BaseTasqClient.connect` up to its loop: open the broker connection, set the
flag, and start the gathering thread unless it is alive. -/
def connectPrelude : Method Unit := do
  brokerConnect
  setConnected true
  if !(← get).gatherer.isAlive then startGatherer

theorem connectPreludeCases {c r} (h : connectPrelude c = r) :
    (c.faults.head? = some true ∧ r = .error .connectFailed c.faulted) ∨
    (c.faults.head? ≠ some true ∧ c.gatherer = .alive ∧ r = .ok () c.faulted.flagged) ∨
    (c.faults.head? ≠ some true ∧ c.gatherer = .initial ∧
      r = .ok () { c.faulted.flagged with gatherer := .alive }) ∨
    (c.faults.head? ≠ some true ∧ c.gatherer = .stopped ∧ r = .error .threadStarted c.faulted.flagged) := by
  subst r
  by_cases hf : c.faults.head? = some true
  · left
    simp [connectPrelude,hf,brokerConnect,brokerCall,faulted]
  · right
    cases hg : c.gatherer <;>
      simp [connectPrelude,hf,hg,brokerConnect,brokerCall,setConnected,ThreadState.isAlive,startGatherer,
        faulted,flagged]

theorem connectPreludeSetsFlag {c c'} (h : connectPrelude c = .ok () c') : c'.isConnected = true := by
  rcases connectPreludeCases h with ⟨-,same⟩ | ⟨-,-,same⟩ | ⟨-,-,same⟩ | ⟨-,-,same⟩ <;> cases same <;> rfl

def connect : Method Unit := connectWith connectPrelude connectPreludeSetsFlag

end BaseTasqClient

/-- What `RedisTasqClient.connect` and `RabbitMQTasqClient.connect` do up to
their loop: no broker call, set the flag, and start the gathering thread with no
check of whether it was started before. -/
def connectPreludeNoBroker : Method Unit := do
  setConnected true
  startGatherer

theorem connectPreludeNoBrokerCases {c r} (h : connectPreludeNoBroker c = r) :
    (c.gatherer = .initial ∧ r = .ok () { c.flagged with gatherer := .alive }) ∨
    (c.gatherer ≠ .initial ∧ r = .error .threadStarted c.flagged) := by
  subst r
  cases hg : c.gatherer <;>
    simp [connectPreludeNoBroker,hg,setConnected,startGatherer,flagged]

theorem connectPreludeNoBrokerSetsFlag {c c'} (h : connectPreludeNoBroker c = .ok () c') :
    c'.isConnected = true := by
  rcases connectPreludeNoBrokerCases h with ⟨-,same⟩ | ⟨-,same⟩ <;> cases same; rfl

def RedisTasqClient.connect : Method Unit := connectWith connectPreludeNoBroker connectPreludeNoBrokerSetsFlag

def RabbitMQTasqClient.connect : Method Unit := connectWith connectPreludeNoBroker connectPreludeNoBrokerSetsFlag

namespace TasqClient

/-- The prelude `self.connect()` runs, by the object's class. -/
def connectPrelude (cls : ClientClass) : Method Unit :=
  match cls with
  | .zmq => BaseTasqClient.connectPrelude
  | .redis | .rabbitmq => connectPreludeNoBroker

theorem connectPreludeSetsFlag {cls c c'} (h : connectPrelude cls c = .ok () c') : c'.isConnected = true := by
  cases cls
  · exact BaseTasqClient.connectPreludeSetsFlag h
  all_goals exact connectPreludeNoBrokerSetsFlag h

/-- `self.connect()`, dispatched on the object's class. -/
def connect : Method Unit := fun c =>
  match c.cls with
  | .zmq => BaseTasqClient.connect c
  | .redis => RedisTasqClient.connect c
  | .rabbitmq => RabbitMQTasqClient.connect c

/-- The three `connect`s are one loop behind a class-specific prelude. -/
theorem connectEq (c : TasqClient) :
    connect c = connectWith (connectPrelude c.cls) connectPreludeSetsFlag c := by
  unfold connect
  split <;> rename_i same <;> rw [same] <;> rfl

/-- `disconnect` of every class: the broker connection's own `disconnect`,
which the ZMQ client calls, changes nothing the model observes. -/
def disconnect : Method Unit := do
  if (← get).isConnected then setConnected false

/-- `BaseTasqClient.close`: disconnect if connected, then close the broker
connection, which the model does not observe. -/
def close : Method Unit := do
  if (← get).isConnected then disconnect

/-- `BaseTasqClient.schedule_blocking` up to its wait: refuse a disconnected
client, else schedule; the result is the future it then waits on. -/
def scheduleBlocking (name : Option JobKey) (uuid : Nat) (call : Call) : Method (Option Nat) := do
  if !(← get).isConnected then throw .notConnected
  schedule name uuid call

/-- `BaseTasqClient.pending_results`: the entries whose future is not done. -/
def pendingResults (c : TasqClient) (name : JobKey) : Option Nat :=
  (c.results name).filter fun future => (c.futures future).isNone

theorem disconnectEq (c : TasqClient) : disconnect c = .ok () { c with isConnected := false } := by
  cases c with | mk cls isConnected =>
  cases isConnected <;>
    simp [disconnect,setConnected]

theorem closeEq (c : TasqClient) : close c = .ok () { c with isConnected := false } := by
  cases c with | mk cls isConnected =>
  cases isConnected <;>
    simp [close,disconnectEq]

theorem scheduleBlockingCases {name uuid call c r} (h : scheduleBlocking name uuid call c = r) :
    (c.isConnected = false ∧ r = .error .notConnected c) ∨
    (c.isConnected = true ∧ r = schedule name uuid call c) := by
  subst r
  cases hc : c.isConnected <;>
    simp [scheduleBlocking,hc]

end TasqClient
end Tasq

namespace Tasq.TasqClient

/-- Everything `connect` can do, for any class's prelude. -/
theorem connectWithCases {prelude : Method Unit} {setsFlag c r}
    (h : connectWith prelude setsFlag c = r) :
    (c.isConnected = true ∧ r = .ok () c) ∨
    (c.isConnected = false ∧ ∃ c', prelude c = .ok () c' ∧ r = replay c'.pending.reverse c') ∨
    (c.isConnected = false ∧ ∃ e c', prelude c = .error e c' ∧ r = .error e c') := by
  subst r
  unfold connectWith
  cases hc : c.isConnected
  · rw [if_neg Bool.false_ne_true]
    split
    · rename_i c' started
      exact .inr (.inl ⟨rfl,c',started,drainReplay _ _⟩)
    · rename_i e c' started
      exact .inr (.inr ⟨rfl,e,c',started,rfl⟩)
  · exact .inl ⟨rfl,rfl⟩

/-- What every class's prelude leaves alone: the queue, the broker's record,
the results and the futures. -/
structure PreludeFrame (c c' : TasqClient) : Prop where
  cls : c'.cls = c.cls
  pending : c'.pending = c.pending
  sent : c'.sent = c.sent
  results : c'.results = c.results
  futures : c'.futures = c.futures
  created : c'.created = c.created

/-- The client a call leaves, whether it returned or raised. -/
def after {ε α : Type} : EStateM.Result ε TasqClient α → TasqClient
  | .ok _ c => c
  | .error _ c => c

@[simp] theorem afterOk {ε α : Type} (a : α) (c : TasqClient) : after (ε := ε) (.ok a c) = c := rfl
@[simp] theorem afterError {ε α : Type} (e : ε) (c : TasqClient) : after (α := α) (.error e c) = c := rfl

theorem connectPreludeFrame (cls : ClientClass) (c : TasqClient) :
    PreludeFrame c (after (connectPrelude cls c)) := by
  cases cls
  · rcases BaseTasqClient.connectPreludeCases (c := c) rfl with
      ⟨-,same⟩ | ⟨-,-,same⟩ | ⟨-,-,same⟩ | ⟨-,-,same⟩ <;>
      exact (congrArg after same).symm ▸ ⟨rfl,rfl,rfl,rfl,rfl,rfl⟩
  all_goals
    rcases connectPreludeNoBrokerCases (c := c) rfl with ⟨-,same⟩ | ⟨-,same⟩ <;>
      exact (congrArg after same).symm ▸ ⟨rfl,rfl,rfl,rfl,rfl,rfl⟩

end Tasq.TasqClient

namespace Tasq.TasqClient

/-- A fresh client of class `cls` after a `connect` over a broker that never raises. -/
def connectedClient (cls : ClientClass) : TasqClient := after (TasqClient.connect (TasqClient.init cls []))

theorem connectAfterPrelude {c c1} (off : c.isConnected = false)
    (started : connectPrelude c.cls c = .ok () c1) : connect c = replay c1.pending.reverse c1 := by
  rcases connectWithCases (connectEq c).symm with ⟨online,-⟩ | ⟨-,c2,again,ran⟩ | ⟨-,e,c2,again,-⟩
  · simp_all
  · rw [started] at again; cases again; exact ran
  · rw [started] at again; cases again

theorem connectedClientEq (cls : ClientClass) :
    connectedClient cls = { TasqClient.init cls [] with isConnected := true, gatherer := .alive } := by
  have started : connectPrelude cls (TasqClient.init cls []) =
      .ok () { TasqClient.init cls [] with isConnected := true, gatherer := .alive } := by
    cases cls <;> rfl
  rw [connectedClient,connectAfterPrelude rfl started]
  rfl

end Tasq.TasqClient

namespace Tasq.TasqClient

/-- `BaseTasqClient.__enter__`: connect unless connected. -/
def enter : Method Unit := do
  if !(← get).isConnected then connect

/-- The test of `__enter__` is the one every class's `connect` makes first, so
entering is connecting. -/
theorem enterEq (c : TasqClient) : enter c = connect c := by
  cases online : c.isConnected
  · simp [enter,online]
  · rcases connectWithCases (connectEq c).symm with ⟨-,same⟩ | ⟨off,-⟩ | ⟨off,-⟩
    · simp [enter,online,same]
    all_goals simp [online] at off

end Tasq.TasqClient
