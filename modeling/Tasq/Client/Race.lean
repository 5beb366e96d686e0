import Tasq.Client.Ops
import Mathlib.Algebra.BigOperators.Group.List
import Mathlib.Data.Multiset.Basic
import Mathlib.Tactic.Abel

/-! One `connect()` call and any number of `schedule()` calls on one client,
each Python statement one atomic step, in any interleaving. Nothing in the
client synchronises them. What holds over every interleaving is conservation:
no job is lost or duplicated, though one may be left in the pending queue of a
connected client. -/
namespace Tasq.Concurrent
open TasqClient

/-- Where a `schedule` call is: before `if not self.is_connected`, before the
`appendleft`, before `TasqFuture()`, before `self._results[name] = future`,
before `send`, or finished. -/
inductive SchedulePc where
  | check
  | buffer
  | create
  | store (future : Nat)
  | send (future : Nat)
  | returned (future : Option Nat)
  | raised (e : ClientError)
  deriving DecidableEq, Repr

/-- A `schedule` call, with the name it popped and the job it built. -/
structure ScheduleCall where
  name : JobKey
  job : Job
  pc : SchedulePc
  deriving DecidableEq, Repr

/-- One statement of a `schedule` call: the call and client after it, and the
job a raising `send` dropped. -/
def ScheduleCall.step (call : ScheduleCall) (c : TasqClient) : Option (ScheduleCall × TasqClient × List Job) :=
  match call.pc with
  | .check => some ({ call with pc := if c.isConnected then .create else .buffer },c,[])
  | .buffer => some ({ call with pc := .returned none },{ c with pending := Deque.appendleft c.pending call.job },[])
  | .create =>
    match newFuture c with
    | .ok future c' => some ({ call with pc := .store future },c',[])
    | .error _ _ => none
  | .store future =>
    match store call.name future c with
    | .ok () c' => some ({ call with pc := .send future },c',[])
    | .error _ _ => none
  | .send future =>
    match send call.job c with
    | .ok () c' => some ({ call with pc := .returned (some future) },c',[])
    | .error e c' => some ({ call with pc := .raised e },c',[call.job])
  | .returned _ | .raised _ => none

/-- Where the `connect` call is; `replay` is inside the `schedule` its loop
makes for a popped job. -/
inductive ConnectPc where
  | check
  | brokerConnect
  | setFlag
  | startGatherer
  | loop
  | pop
  | replay (call : ScheduleCall)
  | returned
  | raised (e : ClientError)
  deriving DecidableEq, Repr

/-- `if not self._gatherer.is_alive(): self._gatherer.start()` for ZMQ, and the
unconditional `start()` of Redis and RabbitMQ. -/
def startFor (cls : ClientClass) : Method Unit := fun c =>
  match cls with
  | .zmq => if c.gatherer.isAlive then .ok () c else startGatherer c
  | .redis | .rabbitmq => startGatherer c

/-- Back in the loop once the replayed `schedule` returns; raising with it. -/
def resume (call : ScheduleCall) : ConnectPc :=
  match call.pc with
  | .returned _ => .loop
  | .raised e => .raised e
  | _ => .replay call

/-- One statement of the `connect` of class `cls`. -/
def connectStep (cls : ClientClass) (pc : ConnectPc) (c : TasqClient) : Option (ConnectPc × TasqClient × List Job) :=
  match pc with
  | .check =>
    some (if c.isConnected then .returned else match cls with | .zmq => .brokerConnect | _ => .setFlag,c,[])
  | .brokerConnect =>
    match brokerConnect c with
    | .ok () c' => some (.setFlag,c',[])
    | .error e c' => some (.raised e,c',[])
  | .setFlag => some (.startGatherer,c.flagged,[])
  | .startGatherer =>
    match startFor cls c with
    | .ok () c' => some (.loop,c',[])
    | .error e c' => some (.raised e,c',[])
  | .loop => some (if c.pending = [] then .returned else .pop,c,[])
  | .pop =>
    match Deque.pop c.pending with
    | none => some (.raised .emptyDeque,c,[])
    | some (job,rest) => some (.replay ⟨job.jobId,Job.new job.jobId 0 job.call,.check⟩,{ c with pending := rest },[])
  | .replay call => (call.step c).map fun (call',c',dropped) => (resume call',c',dropped)
  | .returned | .raised _ => none

/-- The client and every call on it. `lost` is bookkeeping: the jobs whose
`send` raised. -/
structure Race where
  client : TasqClient
  connect : ConnectPc
  calls : List ScheduleCall
  lost : List Job

/-- The thread taking the next step. -/
inductive Thread where
  | connect
  | schedule (i : Nat)
  deriving DecidableEq, Repr

def Race.step (r : Race) : Thread → Option Race
  | .connect => (connectStep r.client.cls r.connect r.client).map fun (pc,c,dropped) =>
      { r with connect := pc,client := c,lost := r.lost ++ dropped }
  | .schedule i =>
    match r.calls[i]? with
    | none => none
    | some call => (call.step r.client).map fun (call',c,dropped) =>
        { r with calls := r.calls.set i call',client := c,lost := r.lost ++ dropped }

def Race.run : Race → List Thread → Option Race
  | r, [] => some r
  | r, t :: ts => (r.step t).bind fun r' => r'.run ts

/-- A `schedule()` request: the `name` keyword, what `uuid4()` gives, the rest. -/
abbrev Request := Option JobKey × Nat × Call

/-- The job `schedule` builds for a request. -/
def Request.job (request : Request) : Job :=
  Job.new (request.1.getD JobKey.unnamed) request.2.1 request.2.2

/-- A `schedule()` call not yet started. -/
def ScheduleCall.start (request : Request) : ScheduleCall :=
  ⟨request.1.getD JobKey.unnamed,request.job,.check⟩

/-- A `connect()` and the given `schedule()` calls, none started, on `c`. -/
def Race.start (c : TasqClient) (requests : List Request) : Race :=
  ⟨c,.check,requests.map ScheduleCall.start,[]⟩

def SchedulePc.finished : SchedulePc → Bool
  | .returned _ | .raised _ => true
  | _ => false

def ConnectPc.finished : ConnectPc → Bool
  | .returned | .raised _ => true
  | _ => false

/-- Every call has returned or raised. -/
def Race.finished (r : Race) : Prop := r.connect.finished ∧ ∀ call ∈ r.calls, call.pc.finished

end Tasq.Concurrent

namespace Tasq.Concurrent
open TasqClient

/-- The job a call still holds: built and neither buffered, sent nor dropped. -/
def ScheduleCall.held (call : ScheduleCall) : Multiset Job :=
  match call.pc with
  | .returned _ | .raised _ => 0
  | _ => {call.job}

def ConnectPc.held : ConnectPc → Multiset Job
  | .replay call => call.held
  | _ => 0

def Race.held (r : Race) : Multiset Job := r.connect.held + (r.calls.map ScheduleCall.held).sum

/-- Every job the race accounts for: sent, buffered, dropped, or held by a call. -/
def Race.jobs (r : Race) : Multiset Job :=
  (r.client.sent : Multiset Job) + r.client.pending + r.lost + r.held

theorem popJobs {p rest : List Job} {job : Job} (h : Deque.pop p = some (job,rest)) :
    (p : Multiset Job) = job ::ₘ rest := by
  have same := Deque.popSome h
  rw [← Multiset.coe_reverse p,same,← Multiset.cons_coe,Multiset.coe_reverse]

theorem ScheduleCall.stepJobs {call call' c c' dropped} (h : ScheduleCall.step call c = some (call',c',dropped)) :
    (c'.sent : Multiset Job) + c'.pending + dropped + call'.held = c.sent + c.pending + call.held := by
  unfold ScheduleCall.step at h
  split at h <;> rename_i pc
  · cases h
    by_cases online : c.isConnected <;> simp [ScheduleCall.held,pc,online]
  · cases h
    simp only [ScheduleCall.held,pc,Deque.appendleft,← Multiset.cons_coe,Multiset.coe_nil,add_zero,
      Multiset.add_cons]
    rw [← Multiset.singleton_add]
    abel
  · simp only [newFuture,Option.some.injEq,Prod.mk.injEq] at h
    obtain ⟨rfl,rfl,rfl⟩ := h
    simp [ScheduleCall.held,pc]
  · simp only [store,Option.some.injEq,Prod.mk.injEq] at h
    obtain ⟨rfl,rfl,rfl⟩ := h
    simp [ScheduleCall.held,pc]
  · split at h <;> rename_i sent <;> simp only [Option.some.injEq,Prod.mk.injEq] at h <;>
      obtain ⟨rfl,rfl,rfl⟩ := h <;>
      rcases sendCases sent with ⟨-,same⟩ | ⟨-,same⟩ <;> cases same
    · simp only [ScheduleCall.held,pc,transmitted,Multiset.coe_nil,add_zero]
      rw [← Multiset.coe_add c.sent [call.job],Multiset.coe_singleton]
      abel
    · simp [ScheduleCall.held,pc,faulted,add_comm]
  all_goals cases h

end Tasq.Concurrent

namespace Tasq.Concurrent
open TasqClient

theorem resumeHeld (call : ScheduleCall) : (resume call).held = call.held := by
  unfold resume
  split <;> simp_all [ConnectPc.held,ScheduleCall.held]

theorem startForFrame (cls : ClientClass) (c : TasqClient) :
    (after (startFor cls c)).sent = c.sent ∧ (after (startFor cls c)).pending = c.pending := by
  unfold startFor startGatherer
  cases cls <;> dsimp only <;> repeat' split
  all_goals exact ⟨rfl,rfl⟩

theorem connectStepJobs {cls pc pc' c c' dropped} (h : connectStep cls pc c = some (pc',c',dropped)) :
    (c'.sent : Multiset Job) + c'.pending + dropped + pc'.held = c.sent + c.pending + pc.held := by
  unfold connectStep at h
  split at h
  · cases h; split <;> (try split) <;> simp [ConnectPc.held]
  · split at h <;> cases h <;> rename_i called <;>
      rcases brokerCallCases called with ⟨-,same⟩ | ⟨-,same⟩ <;> cases same <;> simp [ConnectPc.held]
  · cases h; simp [ConnectPc.held,flagged]
  · have frame := startForFrame cls c
    split at h <;> cases h <;> rename_i started <;>
      simp only [started,afterOk,afterError] at frame <;> simp [ConnectPc.held,frame]
  · cases h; split <;> simp [ConnectPc.held]
  · split at h <;> cases h
    · simp [ConnectPc.held]
    · rename_i job rest popped
      simp only [ConnectPc.held,ScheduleCall.held,Job.newReplay,Multiset.coe_nil,add_zero]
      rw [popJobs popped,← Multiset.singleton_add]
      abel
  · rename_i call
    simp only [Option.map_eq_some'] at h
    obtain ⟨⟨call',c1,dropped1⟩,stepped,same⟩ := h
    cases same
    rw [resumeHeld]
    exact ScheduleCall.stepJobs stepped
  · cases h
  · cases h

theorem sumSet {M : Type} [AddCommMonoid M] (l : List M) (i : Nat) (x : M) (h : i < l.length) :
    (l.set i x).sum + l[i] = l.sum + x := by
  induction l generalizing i with
  | nil => cases h
  | cons y l ih =>
    cases i with
    | zero => simp only [List.set_cons_zero,List.sum_cons,List.getElem_cons_zero]; abel
    | succ i =>
      have := ih i (by simpa using h)
      simp only [List.set_cons_succ,List.sum_cons,List.getElem_cons_succ]
      rw [add_assoc,this,add_assoc]

end Tasq.Concurrent

namespace Tasq.Concurrent
open TasqClient

theorem heldSet {calls : List ScheduleCall} {i call} (found : calls[i]? = some call) (call' : ScheduleCall) :
    ((calls.set i call').map ScheduleCall.held).sum + call.held = (calls.map ScheduleCall.held).sum + call'.held := by
  obtain ⟨bound,same⟩ := List.getElem?_eq_some_iff.mp found
  rw [List.map_set]
  have := sumSet (calls.map ScheduleCall.held) i call'.held (by simpa using bound)
  simpa [same] using this

theorem Race.stepJobs {r r' : Race} {t} (h : r.step t = some r') : r'.jobs = r.jobs := by
  cases t with
  | connect =>
    simp only [Race.step,Option.map_eq_some'] at h
    obtain ⟨⟨pc,c,dropped⟩,stepped,same⟩ := h
    cases same
    have accounted := connectStepJobs stepped
    simp only [Race.jobs,Race.held,← Multiset.coe_add r.lost dropped]
    calc (c.sent : Multiset Job) + c.pending + (r.lost + dropped) + (pc.held + (r.calls.map ScheduleCall.held).sum)
        = (↑c.sent + ↑c.pending + ↑dropped + pc.held) + r.lost + (r.calls.map ScheduleCall.held).sum := by abel
      _ = (↑r.client.sent + ↑r.client.pending + r.connect.held) + r.lost +
          (r.calls.map ScheduleCall.held).sum := by rw [accounted]
      _ = _ := by abel
  | schedule i =>
    simp only [Race.step] at h
    split at h
    · cases h
    · rename_i call found
      simp only [Option.map_eq_some'] at h
      obtain ⟨⟨call',c,dropped⟩,stepped,same⟩ := h
      cases same
      have accounted := ScheduleCall.stepJobs stepped
      have sum := heldSet found call'
      simp only [Race.jobs,Race.held,← Multiset.coe_add r.lost dropped]
      apply add_right_cancel (b := call.held)
      calc (c.sent : Multiset Job) + c.pending + (r.lost + dropped) +
            (r.connect.held + ((r.calls.set i call').map ScheduleCall.held).sum) + call.held
          = (↑c.sent + ↑c.pending + ↑dropped) + r.lost + r.connect.held +
            (((r.calls.set i call').map ScheduleCall.held).sum + call.held) := by abel
        _ = (↑c.sent + ↑c.pending + ↑dropped + call'.held) + r.lost + r.connect.held +
            (r.calls.map ScheduleCall.held).sum := by rw [sum]; abel
        _ = (↑r.client.sent + ↑r.client.pending + call.held) + r.lost + r.connect.held +
            (r.calls.map ScheduleCall.held).sum := by rw [accounted]
        _ = _ := by abel

theorem Race.runJobs {r r' : Race} {threads} (h : r.run threads = some r') : r'.jobs = r.jobs := by
  induction threads generalizing r with
  | nil => cases h; rfl
  | cons t ts ih =>
    simp only [Race.run,Option.bind_eq_some] at h
    obtain ⟨r1,stepped,rest⟩ := h
    exact (ih rest).trans (Race.stepJobs stepped)

end Tasq.Concurrent

namespace Tasq.Concurrent
open TasqClient

theorem Race.startJobs (c : TasqClient) (requests : List Request) :
    (Race.start c requests).jobs = c.sent + c.pending + (requests.map Request.job : Multiset Job) := by
  simp only [Race.jobs,Race.held,Race.start,ConnectPc.held,Multiset.coe_nil,add_zero,zero_add,List.map_map]
  congr 1
  induction requests with
  | nil => rfl
  | cons request rest ih =>
    simp only [List.map_cons,List.sum_cons,Function.comp_apply,ih,← Multiset.cons_coe,
      ScheduleCall.start,ScheduleCall.held,Multiset.singleton_add]

theorem Race.finishedHeld {r : Race} (done : r.finished) : r.held = 0 := by
  obtain ⟨connect,calls⟩ := done
  have first : r.connect.held = 0 := by
    cases h : r.connect <;> simp_all [ConnectPc.finished,ConnectPc.held]
  have rest : (r.calls.map ScheduleCall.held).sum = 0 := by
    refine List.sum_eq_zero fun m mem => ?_
    obtain ⟨call,inside,rfl⟩ := List.mem_map.mp mem
    have := calls call inside
    unfold ScheduleCall.held
    split <;> simp_all [SchedulePc.finished]
  simp [Race.held,first,rest]

/-- No job lost or duplicated by a race of `connect()` with `schedule()`s: in
every interleaving, at every point, the jobs sent, the pending queue, the jobs
whose send raised and the jobs still held by unfinished calls are together
exactly those sent or pending at the start plus those submitted; so once every
call has returned, each submitted job was sent, is still pending, or had its
send raise, exactly once. -/
theorem connectScheduleConserves (c : TasqClient) (requests : List Request) (threads : List Thread) (r : Race)
    (ran : (Race.start c requests).run threads = some r) :
    (r.client.sent : Multiset Job) + r.client.pending + r.lost + r.held =
      c.sent + c.pending + (requests.map Request.job : Multiset Job) ∧
    (r.finished → (r.client.sent : Multiset Job) + r.client.pending + r.lost =
      c.sent + c.pending + (requests.map Request.job : Multiset Job)) := by
  have same : r.jobs = _ := (Race.runJobs ran).trans (Race.startJobs c requests)
  refine ⟨same,fun done => ?_⟩
  simpa [Race.jobs,Race.finishedHeld done] using same

end Tasq.Concurrent

namespace Tasq.Concurrent
open TasqClient

/-- A fresh, disconnected ZMQ client, one `connect()`, and `schedule()` of `a`. -/
def lateBuffer : Race := Race.start (TasqClient.init .zmq []) [(some (.name "a"),0,⟨"f",[],[]⟩)]

/-- `schedule` reads the flag as disconnected; `connect` then runs to its end
over an empty queue; only then does `schedule` append. -/
def lateBufferRun : List Thread := [.schedule 0,.connect,.connect,.connect,.connect,.connect,.schedule 0]

/-- The same, with `b` scheduled as well. -/
def overtaken : Race :=
  Race.start (TasqClient.init .zmq []) [(some (.name "a"),0,⟨"f",[],[]⟩),(some (.name "b"),0,⟨"f",[],[]⟩)]

/-- `a` is buffered before `connect` starts; `connect` sets the flag; `b`'s
`schedule` sees it and sends; only then does the drain send `a`. -/
def overtakenRun : List Thread :=
  [.schedule 0,.schedule 0,.connect,.connect,.connect,.schedule 1,.schedule 1,.schedule 1,.schedule 1,
   .connect,.connect,.connect,.connect,.connect,.connect,.connect,.connect]

/-- Lost jobs and order across a race, refuted: once every call has returned on
a connected client, a job can still sit in the pending queue unsent; and a job
scheduled on the connected client can reach the broker before one buffered
before the `connect`. -/
theorem connectRaceLeavesJobPending :
    (∃ r, lateBuffer.run lateBufferRun = some r ∧ r.finished ∧ r.client.isConnected = true ∧
      r.client.pending.map Job.jobId = [.name "a"] ∧ r.client.sent = []) ∧
    (∃ r, overtaken.run overtakenRun = some r ∧ r.finished ∧ r.client.isConnected = true ∧
      r.client.sent.map Job.jobId = [.name "b",.name "a"]) :=
  ⟨⟨_,rfl,⟨rfl,by decide⟩,rfl,by decide,rfl⟩,⟨_,rfl,⟨rfl,by decide⟩,rfl,by decide⟩⟩

/-- Conservation on the first of those runs. -/
theorem lateBufferConserved :
    ∃ r, lateBuffer.run lateBufferRun = some r ∧ r.finished ∧
      (r.client.sent : Multiset Job) + r.client.pending + r.lost =
        (TasqClient.init .zmq []).sent + (TasqClient.init .zmq []).pending +
        ([(some (.name "a"),0,⟨"f",[],[]⟩)].map Request.job : Multiset Job) :=
  ⟨_,rfl,⟨rfl,by decide⟩,(connectScheduleConserves (TasqClient.init .zmq [])
    [(some (.name "a"),0,⟨"f",[],[]⟩)] lateBufferRun _ rfl).2 ⟨rfl,by decide⟩⟩

end Tasq.Concurrent
