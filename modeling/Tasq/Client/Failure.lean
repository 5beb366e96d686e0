import Tasq.Client.Fifo
import Mathlib.Data.Multiset.Nodup
import Mathlib.Tactic.Abel

/-! What a client is left with when a method raises, and when `connect`
returns. No method rolls anything back: the state a raising call leaves is the
state its statements built up to the raise. `Redis`/`RabbitMQ`'s `connect`
starts the gathering thread with no check, so a reconnect raises and strands the
queue. -/
namespace Tasq.Failure
open TasqClient

/-- The broker calls `connect` makes on a disconnected client when none raises. -/
def connectCalls (c : TasqClient) : Nat := (if c.cls = .zmq then 1 else 0) + c.pending.length

theorem replayNoFault {jobs c} (fine : true ∉ c.faults.take jobs.length) :
    ∃ c', replay jobs c = .ok () c' ∧ c'.gatherer = c.gatherer := by
  induction jobs generalizing c with
  | nil => exact ⟨c,rfl,rfl⟩
  | cons job younger ih =>
    have head : c.faults.head? ≠ some true := by
      intro bad
      cases hf : c.faults with
      | nil => simp [hf] at bad
      | cons b rest => simp_all
    obtain ⟨c',ran,same⟩ := ih (c := ((({ c with pending := younger.reverse } : TasqClient).stored
      job.jobId).transmitted job)) (by
        cases hf : c.faults with
        | nil => simp [transmitted]
        | cons b rest => simp_all [transmitted])
    exact ⟨c',by simp only [replay,head,if_false]; exact ran,same⟩

/-- The jobs a raising drain leaves behind: those before the failing one were
sent, the failing one has a fresh future under its id and was not sent, and
those after it are still buffered in order. -/
theorem replayError {jobs c e c'} (h : replay jobs c = .error e c') :
    e = .sendFailed ∧ c'.isConnected = c.isConnected ∧ ∃ done job later,
      jobs = done ++ job :: later ∧ c'.sent = c.sent ++ done ∧ c'.pending = later.reverse ∧
      c'.results job.jobId = some (c'.created - 1) ∧ c'.futures (c'.created - 1) = none := by
  induction jobs generalizing c with
  | nil => cases h
  | cons job younger ih =>
    simp only [replay] at h
    split at h
    · cases h
      exact ⟨rfl,rfl,[],job,younger,rfl,by simp [faulted,stored],rfl,
        by simp [faulted,stored],by simp [faulted,stored]⟩
    · obtain ⟨rfl,flag,done,failed,later,split,sent,rest,keyed,empty⟩ := ih h
      exact ⟨rfl,flag,job :: done,failed,later,by simp [split],
        by simp [sent,transmitted,stored],rest,keyed,empty⟩

/-- How a raising `connect` leaves a client that was disconnected: the ZMQ
broker's `connect` raised and nothing changed; or `start()` raised after the
flag was set, with the queue intact; or a send of the drain raised, after the
flag was set, with the failing job off the queue, stored, and not sent. -/
def ConnectRaised (c : TasqClient) (e : ClientError) (c' : TasqClient) : Prop :=
  (e = .connectFailed ∧ c.cls = .zmq ∧ c' = c.faulted) ∨
  (e = .threadStarted ∧ c'.isConnected = true ∧ c'.pending = c.pending ∧ c'.sent = c.sent ∧
    c'.results = c.results) ∨
  (e = .sendFailed ∧ c'.isConnected = true ∧ ∃ done job later,
    c.pending.reverse = done ++ job :: later ∧ c'.sent = c.sent ++ done ∧ c'.pending = later.reverse ∧
    c'.results job.jobId = some (c'.created - 1) ∧ c'.futures (c'.created - 1) = none)

theorem connectRaises {c e c'} (off : c.isConnected = false) (h : TasqClient.connect c = .error e c') :
    ConnectRaised c e c' := by
  rw [connectEq] at h
  rcases connectWithCases h with ⟨online,-⟩ | ⟨-,c1,started,ran⟩ | ⟨-,e1,c1,started,same⟩
  · simp_all
  · have frame := connectPreludeFrame c.cls c
    rw [started,afterOk] at frame
    obtain ⟨rfl,flag,done,job,later,split,sent,rest,keyed,empty⟩ := replayError ran.symm
    refine .inr (.inr ⟨rfl,flag.trans (connectPreludeSetsFlag started),done,job,later,?_,?_,rest,keyed,empty⟩)
    · rw [← frame.pending,split]
    · rw [sent,frame.sent]
  · cases same
    cases hc : c.cls <;> rw [hc] at started
    · rcases BaseTasqClient.connectPreludeCases started with
        ⟨-,same⟩ | ⟨-,-,same⟩ | ⟨-,-,same⟩ | ⟨-,-,same⟩ <;> cases same
      · exact .inl ⟨rfl,hc,rfl⟩
      · exact .inr (.inl ⟨rfl,rfl,rfl,rfl,rfl⟩)
    all_goals
      rcases connectPreludeNoBrokerCases started with ⟨-,same⟩ | ⟨-,same⟩ <;> cases same
      exact .inr (.inl ⟨rfl,rfl,rfl,rfl,rfl⟩)

theorem takeSucc {faults : List Bool} {n : Nat} (fine : true ∉ faults.take (n + 1)) :
    faults.head? ≠ some true ∧ true ∉ faults.tail.take n := by
  cases faults <;> simp_all

theorem connectReturns {c} (off : c.isConnected = false)
    (thread : c.gatherer = .initial ∨ (c.cls = .zmq ∧ c.gatherer = .alive))
    (fine : true ∉ c.faults.take (connectCalls c)) :
    ∃ c', TasqClient.connect c = .ok () c' ∧ c'.gatherer = .alive := by
  obtain ⟨c1,started,alive,fine1⟩ : ∃ c1, connectPrelude c.cls c = .ok () c1 ∧ c1.gatherer = .alive ∧
      true ∉ c1.faults.take c1.pending.length := by
    cases hc : c.cls
    · obtain ⟨head,tail⟩ := takeSucc (n := c.pending.length)
        (by simpa [connectCalls,hc,Nat.add_comm] using fine)
      rcases BaseTasqClient.connectPreludeCases (c := c) rfl with
        ⟨bad,-⟩ | ⟨-,g,same⟩ | ⟨-,-,same⟩ | ⟨-,g,-⟩
      · exact absurd bad head
      · exact ⟨_,same,g,tail⟩
      · exact ⟨_,same,rfl,tail⟩
      · rcases thread with g' | ⟨-,g'⟩ <;> simp_all
    all_goals
      have g : c.gatherer = .initial := by
        rcases thread with g | ⟨bad,-⟩
        · exact g
        · simp_all
      rcases connectPreludeNoBrokerCases (c := c) rfl with ⟨-,same⟩ | ⟨bad,-⟩
      · exact ⟨_,same,rfl,by simpa [connectCalls,hc] using fine⟩
      · exact absurd g bad
  have fine2 : true ∉ c1.faults.take c1.pending.reverse.length := by simpa using fine1
  obtain ⟨c',ran,same⟩ := replayNoFault fine2
  exact ⟨c',(connectAfterPrelude off started).trans ran,same.trans alive⟩

end Tasq.Failure

namespace Tasq.Failure
open TasqClient

theorem scheduleRaises {name uuid call c e c'} (h : schedule name uuid call c = .error e c') :
    c.isConnected = true ∧ e = .sendFailed ∧ c' = (c.stored (name.getD JobKey.unnamed)).faulted := by
  rcases scheduleCases h with ⟨-,same⟩ | ⟨-,-,same⟩ | ⟨online,-,same⟩ <;> cases same
  exact ⟨online,rfl,rfl⟩

/-- A ZMQ client holding one buffered job, over a broker whose `connect`
succeeds and whose first `send` raises. -/
def bufferedOne : TasqClient :=
  after (schedule (some (.name "a")) 0 ⟨"f",[],[]⟩ (TasqClient.init .zmq [false,true]))

end Tasq.Failure

namespace Tasq.Failure
open TasqClient

/-- A single-threaded run whose caller catches every exception and goes on. -/
def runsCatching : TasqClient → List Fifo.Op → TasqClient
  | c, [] => c
  | c, op :: ops => runsCatching (after (op.call c)) ops

theorem afterDiscard {α : Type} (x : Method α) (c : TasqClient) : after (discard x c) = after (x c) := by
  show after (EStateM.map _ x c) = _
  unfold EStateM.map
  cases x c <;> rfl

/-- A client whose `connect` cannot start the gathering thread: the thread has
ended, or, for Redis and RabbitMQ, whose `connect` starts it with no check, it
was started before. -/
def CannotRestart (c : TasqClient) : Prop := c.gatherer = .stopped ∨ (c.cls ≠ .zmq ∧ c.gatherer ≠ .initial)

/-- What a call keeps of a client whose thread cannot be started: its class and
thread, its queue as the oldest part of the new queue, and every future's
state, as no future becomes done. -/
structure Keeps (c c' : TasqClient) : Prop where
  cls : c'.cls = c.cls
  gatherer : c'.gatherer = c.gatherer
  pending : ∃ newer, c'.pending = newer ++ c.pending
  futures : ∀ i v, c'.futures i = some v → c.futures i = some v

theorem Keeps.refl (c : TasqClient) : Keeps c c := ⟨rfl,rfl,⟨[],rfl⟩,fun _ _ h => h⟩

theorem Keeps.trans {a b c : TasqClient} (ab : Keeps a b) (bc : Keeps b c) : Keeps a c := by
  obtain ⟨n1,p1⟩ := ab.pending
  obtain ⟨n2,p2⟩ := bc.pending
  exact ⟨bc.cls.trans ab.cls,bc.gatherer.trans ab.gatherer,⟨n2 ++ n1,by simp [p2,p1]⟩,
    fun i v h => ab.futures i v (bc.futures i v h)⟩

theorem Keeps.cannotRestart {c c'} (keeps : Keeps c c') (restart : CannotRestart c) : CannotRestart c' := by
  rw [CannotRestart,keeps.cls,keeps.gatherer]
  exact restart

theorem restartRaises {c} (cls : c.cls ≠ .zmq) (started : c.gatherer ≠ .initial) :
    connectPrelude c.cls c = .error .threadStarted c.flagged := by
  have same : connectPrelude c.cls = connectPreludeNoBroker := by
    cases hc : c.cls
    · exact absurd hc cls
    all_goals rfl
  rw [same]
  rcases connectPreludeNoBrokerCases (c := c) rfl with ⟨initial,-⟩ | ⟨-,raised⟩
  · exact absurd initial started
  · exact raised

theorem reconnectRaises {c} (cls : c.cls ≠ .zmq) (off : c.isConnected = false) (started : c.gatherer ≠ .initial) :
    TasqClient.connect c = .error .threadStarted c.flagged := by
  rcases connectWithCases (connectEq c).symm with ⟨online,-⟩ | ⟨-,c1,ran,-⟩ | ⟨-,e,c1,ran,same⟩
  · simp_all
  · rw [restartRaises cls started] at ran; cases ran
  · rw [restartRaises cls started] at ran; cases ran; exact same

/-- The prelude of a client whose thread cannot be started raises, before or at
`start()`, and leaves the thread as it was. -/
theorem preludeRaises {c} (restart : CannotRestart c) :
    ∃ e c', connectPrelude c.cls c = .error e c' ∧ c'.gatherer = c.gatherer := by
  cases hc : c.cls
  · have stopped : c.gatherer = .stopped := restart.resolve_right fun h => h.1 hc
    rcases BaseTasqClient.connectPreludeCases (c := c) rfl with
      ⟨-,raised⟩ | ⟨-,alive,-⟩ | ⟨-,initial,-⟩ | ⟨-,-,raised⟩
    · exact ⟨_,_,raised,rfl⟩
    · rw [stopped] at alive; cases alive
    · rw [stopped] at initial; cases initial
    · exact ⟨_,_,raised,rfl⟩
  all_goals
    have started : c.gatherer ≠ .initial := restart.elim (fun stopped => by rw [stopped]; decide) And.right
    rcases connectPreludeNoBrokerCases (c := c) rfl with ⟨initial,-⟩ | ⟨-,raised⟩
    · exact absurd initial started
    · exact ⟨_,_,raised,rfl⟩

theorem storedFutures {c : TasqClient} (name : JobKey) {i v} (h : (c.stored name).futures i = some v) :
    c.futures i = some v := by
  by_cases fresh : i = c.created
  · subst fresh
    simp [stored] at h
  · simpa [stored,Function.update_noteq fresh] using h

theorem scheduleKeeps (name : Option JobKey) (uuid : Nat) (call : Call) (c : TasqClient) :
    Keeps c (after (schedule name uuid call c)) := by
  rcases scheduleCases (rfl : schedule name uuid call c = _) with ⟨-,same⟩ | ⟨-,-,same⟩ | ⟨-,-,same⟩ <;>
    rw [same] <;> simp only [afterOk,afterError]
  · exact ⟨rfl,rfl,⟨[_],rfl⟩,fun _ _ h => h⟩
  all_goals exact ⟨rfl,rfl,⟨[],rfl⟩,fun _ _ h => storedFutures (name.getD JobKey.unnamed) h⟩

theorem stepKeeps (op : Fifo.Op) {c} (restart : CannotRestart c) : Keeps c (after (op.call c)) := by
  cases op with
  | schedule name uuid call => rw [Fifo.Op.call,afterDiscard]; exact scheduleKeeps name uuid call c
  | scheduleBlocking name uuid call =>
    rw [Fifo.Op.call,afterDiscard]
    rcases scheduleBlockingCases (rfl : scheduleBlocking name uuid call c = _) with ⟨-,same⟩ | ⟨-,same⟩ <;> rw [same]
    · exact .refl c
    · exact scheduleKeeps name uuid call c
  | connect =>
    cases off : c.isConnected
    · obtain ⟨e,c1,raised,gatherer⟩ := preludeRaises restart
      have frame := connectPreludeFrame c.cls c
      rw [raised,afterError] at frame
      rcases connectWithCases (connectEq c).symm with ⟨online,-⟩ | ⟨-,c2,started,-⟩ | ⟨-,e',c2,started,same⟩
      · rw [off] at online; cases online
      · rw [raised] at started; cases started
      · rw [raised] at started
        cases started
        rw [Fifo.Op.call,same,afterError]
        exact ⟨frame.cls,gatherer,⟨[],frame.pending⟩,fun i v h => by rwa [frame.futures] at h⟩
    · rw [Fifo.Op.call,connectEq,connectWith,if_pos off]; exact .refl c
  | disconnect => rw [Fifo.Op.call,disconnectEq]; exact ⟨rfl,rfl,⟨[],rfl⟩,fun _ _ h => h⟩
  | close => rw [Fifo.Op.call,closeEq]; exact ⟨rfl,rfl,⟨[],rfl⟩,fun _ _ h => h⟩

theorem runsKeeps (ops : List Fifo.Op) {c} (restart : CannotRestart c) : Keeps c (runsCatching c ops) := by
  induction ops generalizing c with
  | nil => exact .refl c
  | cons op ops ih =>
    have first := stepKeeps op restart
    exact first.trans (ih (first.cannotRestart restart))

/-- Redis and RabbitMQ clients cannot reconnect: their `connect` calls `start()`
on the gathering thread with no check, so once that thread has been started a
`connect` of a disconnected client raises `RuntimeError` after setting the flag
and before its loop. From then on, whatever calls follow and whichever of them
raise, the jobs buffered at that point stay in the queue as its oldest part. -/
theorem reconnectStrandsPending :
    (∀ c, c.cls ≠ .zmq → c.isConnected = false → c.gatherer ≠ .initial →
      TasqClient.connect c = .error .threadStarted c.flagged) ∧
    (∀ c ops, c.cls ≠ .zmq → c.gatherer ≠ .initial → ∃ newer, (runsCatching c ops).pending = newer ++ c.pending) :=
  ⟨fun _ => reconnectRaises,fun _ ops cls started => (runsKeeps ops (.inr ⟨cls,started⟩)).pending⟩

/-- A Redis client after `connect()`, `disconnect()` and `schedule(f, name='a')`. -/
def strandedRedis : TasqClient :=
  after (schedule (some (.name "a")) 0 ⟨"f",[],[]⟩ (after (disconnect (connectedClient .redis))))

theorem strandedRedisReconnect :
    strandedRedis.cls ≠ .zmq ∧ strandedRedis.isConnected = false ∧ strandedRedis.gatherer ≠ .initial ∧
    TasqClient.connect strandedRedis = .error .threadStarted strandedRedis.flagged ∧
    ∃ newer, (runsCatching strandedRedis [.connect,.disconnect,.connect]).pending = newer ++ strandedRedis.pending := by
  have fixture : strandedRedis =
      { TasqClient.init .redis [] with gatherer := .alive,pending := [Job.new (.name "a") 0 ⟨"f",[],[]⟩] } := by
    rw [strandedRedis,connectedClientEq,disconnectEq]
    rfl
  have cls : strandedRedis.cls ≠ .zmq := by rw [fixture]; decide
  have off : strandedRedis.isConnected = false := by rw [fixture]; rfl
  have started : strandedRedis.gatherer ≠ .initial := by rw [fixture]; decide
  exact ⟨cls,off,started,reconnectStrandsPending.1 _ cls off started,reconnectStrandsPending.2 _ _ cls started⟩

theorem scheduleNoDuplicate (name : Option JobKey) (uuid : Nat) (call : Call) (c : TasqClient) :
    ((after (schedule name uuid call c)).sent + (after (schedule name uuid call c)).pending : Multiset Job) ≤
      (c.sent + c.pending : Multiset Job) + {Job.new (name.getD JobKey.unnamed) uuid call} := by
  rcases scheduleCases (rfl : schedule name uuid call c = _) with ⟨-,same⟩ | ⟨-,-,same⟩ | ⟨-,-,same⟩ <;> rw [same]
  · apply le_of_eq
    simp only [afterOk,Deque.appendleft,← Multiset.cons_coe,← Multiset.singleton_add]
    abel
  · apply le_of_eq
    simp only [afterOk,transmitted,stored,← Multiset.coe_add,Multiset.coe_singleton]
    abel
  · exact Multiset.le_add_right _ _

/-- `connect` sends only the jobs it pops; a send that raises loses the job popped for it. -/
theorem connectNoDuplicate (c : TasqClient) :
    ((after (TasqClient.connect c)).sent + (after (TasqClient.connect c)).pending : Multiset Job) ≤
      c.sent + c.pending := by
  have frame := connectPreludeFrame c.cls c
  rcases connectWithCases (connectEq c).symm with ⟨-,same⟩ | ⟨-,c1,started,ran⟩ | ⟨-,e,c1,started,same⟩
  · rw [same,afterOk]
  · rw [started,afterOk] at frame
    rw [ran]
    cases replayed : replay c1.pending.reverse c1 with
    | ok u c' =>
      obtain ⟨sent,empty,-⟩ := Fifo.replayOk replayed rfl
      apply le_of_eq
      simp only [afterOk,sent,empty,frame.sent,frame.pending,List.append_nil]
      rw [← Multiset.coe_add,Multiset.coe_reverse,Multiset.coe_nil,add_zero]
    | error e c' =>
      obtain ⟨-,-,done,job,later,split,sent,rest,-,-⟩ := replayError replayed
      have queued : (c1.pending : Multiset Job) = done + job ::ₘ later := by
        rw [← Multiset.coe_reverse,split,← Multiset.coe_add,← Multiset.cons_coe]
      simp only [afterError,sent,rest]
      rw [← Multiset.coe_add,Multiset.coe_reverse,← frame.sent,← frame.pending,queued,← Multiset.singleton_add]
      apply le_of_le_of_eq (Multiset.le_add_right _ {job})
      abel
  · rw [started,afterError] at frame
    rw [same,afterError,frame.sent,frame.pending]

theorem stepNoDuplicate (op : Fifo.Op) (c : TasqClient) :
    ((after (op.call c)).sent + (after (op.call c)).pending : Multiset Job) ≤
      c.sent + c.pending + op.accepts := by
  cases op with
  | schedule name uuid call =>
    rw [Fifo.Op.call,afterDiscard,Fifo.Op.accepts,Multiset.coe_singleton]
    exact scheduleNoDuplicate name uuid call c
  | scheduleBlocking name uuid call =>
    rw [Fifo.Op.call,afterDiscard,Fifo.Op.accepts,Multiset.coe_singleton]
    rcases scheduleBlockingCases (rfl : scheduleBlocking name uuid call c = _) with ⟨-,same⟩ | ⟨-,same⟩ <;> rw [same]
    · exact Multiset.le_add_right _ _
    · exact scheduleNoDuplicate name uuid call c
  | connect => exact (connectNoDuplicate c).trans (Multiset.le_add_right _ _)
  | disconnect => rw [Fifo.Op.call,disconnectEq]; exact Multiset.le_add_right _ _
  | close => rw [Fifo.Op.call,closeEq]; exact Multiset.le_add_right _ _

theorem runsNoDuplicate (ops : List Fifo.Op) (c : TasqClient) :
    ((runsCatching c ops).sent + (runsCatching c ops).pending : Multiset Job) ≤
      c.sent + c.pending + (ops.flatMap Fifo.Op.accepts : List Job) := by
  induction ops generalizing c with
  | nil => simp [runsCatching]
  | cons op ops ih =>
    calc _ ≤ _ := ih (after (op.call c))
      _ ≤ c.sent + c.pending + op.accepts + (ops.flatMap Fifo.Op.accepts : List Job) :=
        add_le_add_right (stepNoDuplicate op c) _
      _ = _ := by rw [List.flatMap_cons,← Multiset.coe_add,add_assoc]

/-- No job is sent twice, or both sent and still buffered, whatever the broker
raises: in a single-threaded run of a fresh client whose caller catches every
exception, the jobs sent and the jobs buffered, counted with multiplicity, are
among the jobs the calls handed over. A job can be lost (a failed send, or a
failed drain that has popped it), and after a failed drain the order is no longer
the calls' order, but none is duplicated; so when the calls hand over distinct
jobs, no job is in the sent list twice or in both lists. -/
theorem noDuplicateSend (cls : ClientClass) (faults : List Bool) (ops : List Fifo.Op) :
    ((runsCatching (TasqClient.init cls faults) ops).sent +
        (runsCatching (TasqClient.init cls faults) ops).pending : Multiset Job) ≤
      (ops.flatMap Fifo.Op.accepts : List Job) ∧
    ((ops.flatMap Fifo.Op.accepts).Nodup →
      ((runsCatching (TasqClient.init cls faults) ops).sent ++
        (runsCatching (TasqClient.init cls faults) ops).pending).Nodup) := by
  have bound := runsNoDuplicate ops (TasqClient.init cls faults)
  simp only [TasqClient.init,Multiset.coe_nil,add_zero,zero_add] at bound
  exact ⟨bound,fun distinct => Multiset.coe_nodup.1
    (Multiset.nodup_of_le (by rwa [← Multiset.coe_add]) (Multiset.coe_nodup.2 distinct))⟩

/-- A fresh Redis client: `schedule(f, name='a')`, `schedule(f, name='b')`, then a
`connect` whose second send raises. -/
def lossyOps : List Fifo.Op :=
  [.schedule (some (.name "a")) 0 ⟨"f",[],[]⟩,.schedule (some (.name "b")) 1 ⟨"f",[],[]⟩,.connect]

theorem lossyConnectNoDuplicate :
    (lossyOps.flatMap Fifo.Op.accepts).Nodup ∧
    ((runsCatching (TasqClient.init .redis [false,true]) lossyOps).sent ++
      (runsCatching (TasqClient.init .redis [false,true]) lossyOps).pending).Nodup :=
  ⟨by decide,(noDuplicateSend .redis [false,true] lossyOps).2 (by decide)⟩

end Tasq.Failure
