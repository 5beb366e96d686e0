import Tasq.Client.Ops

/-! Single-threaded runs of a client's methods in which every call returns.
What the broker was sent, followed by the pending queue read oldest first, is
always the list of jobs the caller scheduled, so every job reaches the broker
once and in submission order; a `connect` that returns leaves the queue empty.
Concurrent callers are the business of `Race`. -/
namespace Tasq.Fifo
open TasqClient

/-- A call the caller makes on the client. -/
inductive Op where
  | schedule (name : Option JobKey) (uuid : Nat) (call : Call)
  | scheduleBlocking (name : Option JobKey) (uuid : Nat) (call : Call)
  | connect
  | disconnect
  | close
  deriving DecidableEq, Repr

def Op.call : Op → Method Unit
  | .schedule name uuid call => discard (TasqClient.schedule name uuid call)
  | .scheduleBlocking name uuid call => discard (TasqClient.scheduleBlocking name uuid call)
  | .connect => TasqClient.connect
  | .disconnect => TasqClient.disconnect
  | .close => TasqClient.close

/-- The job a call hands to the client. -/
def Op.accepts : Op → List Job
  | .schedule name uuid call | .scheduleBlocking name uuid call =>
    [Job.new (name.getD JobKey.unnamed) uuid call]
  | _ => []

theorem discardOk {α : Type} {x : Method α} {c c'} (h : discard x c = .ok () c') : ∃ v, x c = .ok v c' := by
  simp only [discard,Functor.mapConst,Function.comp_apply,EStateM.map] at h
  split at h
  · cases h; exact ⟨_,by assumption⟩
  · cases h

/-- The client after a run in which every call returned; `none` once one raises. -/
def runs : TasqClient → List Op → Option TasqClient
  | c, [] => some c
  | c, op :: ops =>
    match op.call c with
    | .ok () c' => runs c' ops
    | .error _ _ => none

/-- The invariant of single-threaded runs. -/
structure Released (c : TasqClient) (accepted : List Job) : Prop where
  order : c.sent ++ c.pending.reverse = accepted
  drained : c.isConnected = true → c.pending = []

theorem replayOk {jobs c c'} (h : replay jobs c = .ok () c') (queue : c.pending.reverse = jobs) :
    c'.sent = c.sent ++ jobs ∧ c'.pending = [] ∧ c'.isConnected = c.isConnected := by
  induction jobs generalizing c with
  | nil =>
    cases h
    exact ⟨by simp,by simpa using queue,rfl⟩
  | cons job younger ih =>
    simp only [replay] at h
    split at h
    · cases h
    · obtain ⟨sent,empty,flag⟩ := ih h (by simp [transmitted,stored])
      exact ⟨by simp [sent,transmitted,stored],empty,flag⟩

theorem connectOk {c c'} (h : TasqClient.connect c = .ok () c') :
    c'.pending = [] ∨ c' = c := by
  rw [connectEq] at h
  rcases connectWithCases h with ⟨-,same⟩ | ⟨-,c1,-,ran⟩ | ⟨-,e,c1,-,same⟩
  · cases same; exact .inr rfl
  · exact .inl (replayOk ran.symm rfl).2.1
  · cases same

theorem scheduleReleased {name uuid call c c' acc v} (h : schedule name uuid call c = .ok v c')
    (inv : Released c acc) : Released c' (acc ++ [Job.new (name.getD JobKey.unnamed) uuid call]) := by
  rcases scheduleCases h with ⟨off,same⟩ | ⟨online,-,same⟩ | ⟨-,-,same⟩
  · cases same
    exact ⟨by simp [← inv.order],by simp [off]⟩
  · cases same
    have empty := inv.drained online
    exact ⟨by simp [transmitted,← inv.order,empty],fun _ => by simpa [transmitted] using empty⟩
  · cases same

theorem stepReleased {op : Op} {c c' acc} (h : op.call c = .ok () c') (inv : Released c acc) :
    Released c' (acc ++ op.accepts) := by
  cases op with
  | schedule name uuid call =>
    obtain ⟨v,ran⟩ := discardOk h
    exact scheduleReleased ran inv
  | scheduleBlocking name uuid call =>
    obtain ⟨v,ran⟩ := discardOk h
    rcases scheduleBlockingCases ran with ⟨-,same⟩ | ⟨-,same⟩
    · cases same
    · exact scheduleReleased same.symm inv
  | connect =>
    rw [Op.call,connectEq] at h
    rcases connectWithCases h with ⟨-,same⟩ | ⟨off,c1,started,ran⟩ | ⟨-,e,c1,-,same⟩
    · cases same; simpa [Op.accepts] using inv
    · have frame := connectPreludeFrame c.cls c
      rw [started,afterOk] at frame
      obtain ⟨sent,empty,-⟩ := replayOk ran.symm rfl
      exact ⟨by simp [Op.accepts,sent,empty,frame.sent,frame.pending,← inv.order],fun _ => empty⟩
    · cases same
  | disconnect =>
    rw [Op.call,disconnectEq] at h
    cases h
    exact ⟨by simpa [Op.accepts] using inv.order,by simp⟩
  | close =>
    rw [Op.call,closeEq] at h
    cases h
    exact ⟨by simpa [Op.accepts] using inv.order,by simp⟩

theorem runsReleased {ops c c' acc} (h : runs c ops = some c') (inv : Released c acc) :
    Released c' (acc ++ ops.flatMap Op.accepts) := by
  induction ops generalizing c acc with
  | nil => cases h; simpa using inv
  | cons op ops ih =>
    simp only [runs] at h
    split at h
    · rename_i c1 stepped
      simpa using ih h (stepReleased stepped inv)
    · cases h

/-- Pending queue FIFO: in every single-threaded run of a fresh client of any
class in which every call returns, the jobs sent followed by the pending queue
oldest first are the jobs the caller scheduled, in order; the drain loop makes
one turn per buffered job, oldest first; and a `connect` that returns leaves the
queue empty. -/
theorem pendingFifo :
    (∀ cls faults ops c, runs (TasqClient.init cls faults) ops = some c →
      c.sent ++ c.pending.reverse = ops.flatMap Op.accepts ∧ (c.isConnected = true → c.pending = [])) ∧
    (∀ c connected, drain c connected = replay c.pending.reverse c) ∧
    (∀ c c', c.isConnected = false → TasqClient.connect c = .ok () c' → c'.pending = []) := by
  refine ⟨fun cls faults ops c ran => ?_,drainReplay,fun c c' off h => ?_⟩
  · have inv := runsReleased ran ⟨rfl,fun h => nomatch h⟩
    exact ⟨by simpa using inv.order,inv.drained⟩
  · rcases connectOk h with empty | rfl
    · exact empty
    · rw [connectEq] at h
      rcases connectWithCases h with ⟨online,-⟩ | ⟨-,c1,-,ran⟩ | ⟨-,e,c1,-,same⟩
      · simp_all
      · exact (replayOk ran.symm rfl).2.1
      · cases same

end Tasq.Fifo
