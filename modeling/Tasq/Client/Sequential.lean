import Tasq.Client.Race

/-! The statement-level calls of `Tasq.Concurrent` and the methods of
`Tasq.TasqClient` model one code: a call whose statements run with nothing
interleaved ends as the method does and leaves the client as the method does.
So every result about the methods is a result about an uninterrupted call, and
the races of `Tasq.Concurrent` are the only behaviour the methods do not show. -/
namespace Tasq.Concurrent
open TasqClient

/-- Let thread `t` take up to `fuel` steps, stopping once it has none. -/
def Race.alone (t : Thread) : Nat → Race → Race
  | 0, r => r
  | fuel + 1, r =>
    match r.step t with
    | some r' => Race.alone t fuel r'
    | none => r

/-- One `schedule()` call taking up to `fuel` statements on its own, with the
jobs its `send` dropped. -/
def ScheduleCall.alone : Nat → ScheduleCall × TasqClient × List Job → ScheduleCall × TasqClient × List Job
  | 0, s => s
  | fuel + 1, (call,c,lost) =>
    match call.step c with
    | some (call',c',dropped) => ScheduleCall.alone fuel (call',c',lost ++ dropped)
    | none => (call,c,lost)

/-- Where a finished `schedule()` call stands, by the method's outcome. -/
def SchedulePc.ofOutcome : Outcome (Option Nat) → SchedulePc
  | .ok future _ => .returned future
  | .error e _ => .raised e

/-- Where a finished `connect()` stands, by the method's outcome. -/
def ConnectPc.ofOutcome : Outcome Unit → ConnectPc
  | .ok () _ => .returned
  | .error e _ => .raised e

/-- Where `connect()` stands once its steps before the loop are done. -/
def ConnectPc.ofPrelude : Outcome Unit → ConnectPc
  | .ok () _ => .loop
  | .error e _ => .raised e

theorem Race.aloneStuck {r : Race} {t : Thread} (stuck : r.step t = none) (fuel : Nat) :
    Race.alone t fuel r = r := by
  cases fuel <;> simp [Race.alone,stuck]

theorem Race.aloneAdd (t : Thread) (m n : Nat) (r : Race) :
    Race.alone t (m + n) r = Race.alone t n (Race.alone t m r) := by
  induction m generalizing r with
  | zero => simp [Race.alone]
  | succ m ih =>
    rw [Nat.add_right_comm]
    cases stepped : r.step t with
    | none => simp [Race.alone,stepped,Race.aloneStuck stepped]
    | some r' => simp [Race.alone,stepped,ih]

theorem Race.aloneFinished {r : Race} (done : r.connect.finished = true) (fuel : Nat) :
    Race.alone .connect fuel r = r := by
  refine Race.aloneStuck ?_ fuel
  obtain ⟨c,pc,calls,lost⟩ := r
  cases pc <;> first | rfl | cases done

/-- Once `connect()` has finished, more fuel changes nothing. -/
theorem Race.aloneSettles {k m : Nat} {r r' : Race} (ran : Race.alone .connect k r = r')
    (done : r'.connect.finished = true) (more : k ≤ m) : Race.alone .connect m r = r' := by
  rw [← Nat.add_sub_cancel' more,Race.aloneAdd,ran,Race.aloneFinished done]

theorem ConnectPc.ofOutcomeFinished (o : Outcome Unit) : (ConnectPc.ofOutcome o).finished = true := by
  cases o <;> rfl

end Tasq.Concurrent

namespace Tasq.Concurrent
open TasqClient

theorem setFound {α : Type} {l : List α} {i : Nat} {x : α} (found : l[i]? = some x) : l.set i x = l :=
  List.ext_getElem? fun j => by
    rw [List.getElem?_set]
    split
    · subst j; simp [found,(List.getElem?_eq_some_iff.mp found).1]
    · rfl

/-- While thread `schedule i` runs alone, the race is its call run alone. -/
theorem Race.aloneSchedule (fuel : Nat) {r : Race} {i call} (found : r.calls[i]? = some call) :
    Race.alone (.schedule i) fuel r =
      { r with calls := r.calls.set i (ScheduleCall.alone fuel (call,r.client,r.lost)).1,
               client := (ScheduleCall.alone fuel (call,r.client,r.lost)).2.1,
               lost := (ScheduleCall.alone fuel (call,r.client,r.lost)).2.2 } := by
  induction fuel generalizing r call with
  | zero => simp [Race.alone,ScheduleCall.alone,setFound found]
  | succ fuel ih =>
    have bound : i < r.calls.length := (List.getElem?_eq_some_iff.mp found).1
    cases stepped : call.step r.client with
    | none => simp [Race.alone,ScheduleCall.alone,Race.step,found,stepped,setFound found]
    | some next =>
      obtain ⟨call',c',dropped⟩ := next
      simp only [Race.alone,ScheduleCall.alone,Race.step,found,stepped,Option.map_some']
      rw [ih (List.getElem?_set_self bound)]
      simp [List.set_set]

/-- The four statements of a `schedule()` call compute `TasqClient.schedule`. -/
theorem ScheduleCall.aloneStart (request : Request) (c : TasqClient) (lost : List Job) :
    (ScheduleCall.alone 4 (ScheduleCall.start request,c,lost)).1 =
      { ScheduleCall.start request with pc := SchedulePc.ofOutcome (schedule request.1 request.2.1 request.2.2 c) } ∧
    (ScheduleCall.alone 4 (ScheduleCall.start request,c,lost)).2.1 =
      after (schedule request.1 request.2.1 request.2.2 c) := by
  rcases scheduleCases (rfl : schedule request.1 request.2.1 request.2.2 c = _) with
    ⟨off,same⟩ | ⟨online,fine,same⟩ | ⟨online,fault,same⟩ <;> rw [same]
  · simp [ScheduleCall.alone,ScheduleCall.step,ScheduleCall.start,off,SchedulePc.ofOutcome,Request.job]
  · simp [ScheduleCall.alone,ScheduleCall.step,ScheduleCall.start,online,SchedulePc.ofOutcome,Request.job,
      newFuture,store,send,brokerCall,fine,stored,transmitted]
  · simp [ScheduleCall.alone,ScheduleCall.step,ScheduleCall.start,online,SchedulePc.ofOutcome,Request.job,
      newFuture,store,send,brokerCall,fault,stored,faulted]

/-- A `schedule()` call that runs from its first statement with nothing
interleaved ends as `TasqClient.schedule` does, returning the same future or
raising the same error, and leaves the client as the method does; the other
calls and `connect()` stay where they were. -/
theorem scheduleAlone (c : TasqClient) (connect : ConnectPc) (pre post : List ScheduleCall) (lost : List Job)
    (request : Request) :
    let r := Race.alone (.schedule pre.length) 4 ⟨c,connect,pre ++ ScheduleCall.start request :: post,lost⟩
    r.client = after (schedule request.1 request.2.1 request.2.2 c) ∧
    r.calls = pre ++ { ScheduleCall.start request with
      pc := SchedulePc.ofOutcome (schedule request.1 request.2.1 request.2.2 c) } :: post ∧
    r.connect = connect := by
  have found : (pre ++ ScheduleCall.start request :: post)[pre.length]? = some (ScheduleCall.start request) := by
    rw [List.getElem?_append_right (le_refl _)]
    simp
  obtain ⟨pc,client⟩ := ScheduleCall.aloneStart request c lost
  rw [Race.aloneSchedule 4 found]
  exact ⟨client,by simp [pc],rfl⟩

end Tasq.Concurrent

namespace Tasq.Concurrent
open TasqClient

/-- One turn of the drain loop run alone: the loop test, the `pop` and the four
statements of the replayed `schedule`, ending back at the loop, or raised, as the
method-level `schedule` does. -/
theorem Race.aloneTurn {c : TasqClient} {job rest} (popped : Deque.pop c.pending = some (job,rest))
    (online : c.isConnected = true) (calls : List ScheduleCall) (lost : List Job) :
    Race.alone .connect 6 ⟨c,.loop,calls,lost⟩ =
      match schedule (some job.jobId) 0 job.call { c with pending := rest } with
      | .ok _ c' => ⟨c',.loop,calls,lost⟩
      | .error e c' => ⟨c',.raised e,calls,lost ++ [job]⟩ := by
  have nonempty : c.pending ≠ [] := fun h => by simp [h,Deque.popNone.mpr] at popped
  rcases scheduleCases (rfl : schedule (some job.jobId) 0 job.call { c with pending := rest } = _) with
    ⟨off,-⟩ | ⟨-,fine,same⟩ | ⟨-,fault,same⟩
  · simp_all
  · rw [same]
    simp [Race.alone,Race.step,connectStep,nonempty,popped,ScheduleCall.step,online,resume,newFuture,
      store,send,brokerCall,fine,stored,transmitted]
  · rw [same]
    simp [Race.alone,Race.step,connectStep,nonempty,popped,ScheduleCall.step,online,resume,newFuture,
      store,send,brokerCall,fault,stored,faulted]

/-- The drain loop run alone: six statements per buffered job and the final
loop test compute `replay` over the queue, oldest job first. -/
theorem Race.aloneLoop (n : Nat) (r : Race) (length : r.client.pending.length = n) (atLoop : r.connect = .loop)
    (online : r.client.isConnected = true) :
    (Race.alone .connect (6 * n + 1) r).client = after (replay r.client.pending.reverse r.client) ∧
    (Race.alone .connect (6 * n + 1) r).connect = ConnectPc.ofOutcome (replay r.client.pending.reverse r.client) ∧
    (Race.alone .connect (6 * n + 1) r).calls = r.calls := by
  induction n generalizing r with
  | zero =>
    have empty := List.length_eq_zero.mp length
    simp [Race.alone,Race.step,connectStep,atLoop,empty,replay,ConnectPc.ofOutcome]
  | succ n ih =>
    obtain ⟨c,pc,calls,lost⟩ := r
    dsimp only at length atLoop online ⊢
    subst atLoop
    obtain ⟨⟨job,rest⟩,popped⟩ : ∃ p, Deque.pop c.pending = some p :=
      Option.ne_none_iff_exists'.mp fun h => by simp [Deque.popNone.mp h] at length
    rw [replayPopped popped online,show 6 * (n + 1) + 1 = 6 + (6 * n + 1) by omega,Race.aloneAdd,
      Race.aloneTurn popped online]
    cases replayed : schedule (some job.jobId) 0 job.call { c with pending := rest } with
    | ok v c' =>
      have shorter : c'.pending.length = n := by
        have := congrArg List.length (Deque.popSome popped)
        simp only [List.length_reverse,List.length_cons] at this
        rw [scheduleKeepsPending replayed online]
        exact Nat.succ_injective (this.symm.trans length)
      exact ih ⟨c',.loop,calls,lost⟩ shorter rfl (scheduleKeepsConnected replayed online)
    | error e c' => simp [Race.aloneStuck,Race.step,connectStep,ConnectPc.ofOutcome]

/-- The statements of `connect()` before its loop compute the class's prelude,
in four steps for ZMQ and three for Redis and RabbitMQ. -/
theorem Race.alonePrelude (c : TasqClient) (calls : List ScheduleCall) (lost : List Job)
    (off : c.isConnected = false) :
    ∃ k ≤ 4, Race.alone .connect k ⟨c,.check,calls,lost⟩ =
      ⟨after (connectPrelude c.cls c),ConnectPc.ofPrelude (connectPrelude c.cls c),calls,lost⟩ := by
  cases cls : c.cls
  · refine ⟨4,le_refl 4,?_⟩
    cases hg : c.gatherer <;> by_cases fault : c.faults.head? = some true <;>
      simp [Race.alone,Race.step,connectStep,off,cls,hg,fault,TasqClient.connectPrelude,
        BaseTasqClient.connectPrelude,brokerConnect,brokerCall,setConnected,faulted,flagged,startFor,
        startGatherer,ThreadState.isAlive,ConnectPc.ofPrelude]
  all_goals
    refine ⟨3,by omega,?_⟩
    cases hg : c.gatherer <;>
      simp [Race.alone,Race.step,connectStep,off,cls,hg,TasqClient.connectPrelude,connectPreludeNoBroker,
        setConnected,flagged,startFor,startGatherer,ConnectPc.ofPrelude]

/-- A `connect()` call that runs from its first statement with nothing
interleaved ends as `TasqClient.connect` does, for every class, broker and
pending queue, within five statements plus six per buffered job, and leaves the
client as the method does; the `schedule()` calls stay where they were. -/
theorem connectAlone (c : TasqClient) (calls : List ScheduleCall) (lost : List Job) :
    let r := Race.alone .connect (6 * c.pending.length + 5) ⟨c,.check,calls,lost⟩
    r.client = after (connect c) ∧ r.connect = ConnectPc.ofOutcome (connect c) ∧ r.calls = calls := by
  rcases connectWithCases (connectEq c).symm with ⟨online,same⟩ | ⟨off,c1,started,same⟩ | ⟨off,e,c1,started,same⟩ <;>
    rw [same]
  · have ran : Race.alone .connect 1 ⟨c,.check,calls,lost⟩ = ⟨c,.returned,calls,lost⟩ := by
      simp [Race.alone,Race.step,connectStep,online]
    rw [Race.aloneSettles ran rfl (by omega)]
    exact ⟨rfl,rfl,rfl⟩
  · obtain ⟨k,few,ran⟩ := Race.alonePrelude c calls lost off
    have frame := connectPreludeFrame c.cls c
    simp only [started,afterOk,ConnectPc.ofPrelude] at ran frame
    have loop := Race.aloneLoop _ ⟨c1,.loop,calls,lost⟩ rfl rfl (connectPreludeSetsFlag started)
    rw [Race.aloneSettles (k := k + (6 * c1.pending.length + 1)) (by rw [Race.aloneAdd,ran])
      (by rw [loop.2.1]; exact ConnectPc.ofOutcomeFinished _) (by rw [frame.pending]; omega)]
    exact loop
  · obtain ⟨k,few,ran⟩ := Race.alonePrelude c calls lost off
    simp only [started,afterError,ConnectPc.ofPrelude] at ran
    rw [Race.aloneSettles ran rfl (by omega)]
    exact ⟨rfl,rfl,rfl⟩

end Tasq.Concurrent
