import Tasq.Client.Fifo
import Tasq.Client.Gather
import Mathlib.Logic.Relation
import Mathlib.Data.List.Nodup

/-! Result correlation when every `schedule` call passes a name. The caller's
calls and the gathering loop's turns on one client of any class interleave,
each method one atomic step. The caller passes distinct names and each call
returns; the broker sends one result per sent job, carrying its id. Then every
future in the results map belongs to one sent job, stays pending until that
job's result arrives, and then holds it; and no turn of the loop raises. A call
without a name breaks this, as `unnamedResultDropped` shows. -/
namespace Tasq.Fifo

/-- A call whose job is stored under its own id: a `schedule` given a name. -/
def Op.named : Op → Prop
  | .schedule name _ _ | .scheduleBlocking name _ _ => name.getD JobKey.unnamed ≠ JobKey.unnamed
  | _ => True

end Tasq.Fifo

namespace Tasq.Correlation
open TasqClient Fifo

/-- The results map and the futures: every entry is a sent job's id with a
future of its own, pending until that job's result is received and then holding
it; and every sent job has an entry. -/
structure Correlated (c : TasqClient) (answered : List JobKey) : Prop where
  keyed : ∀ k i, c.results k = some i → i < c.created ∧ k ∈ c.sent.map Job.jobId
  stored : ∀ j ∈ c.sent, c.results j.jobId ≠ none
  injective : ∀ k k' i, c.results k = some i → c.results k' = some i → k = k'
  done : ∀ k i, c.results k = some i →
    (c.futures i = none ∧ k ∉ answered) ∨ (∃ r, c.futures i = some r ∧ r.name = k ∧ k ∈ answered)
  answeredSent : ∀ k ∈ answered, k ∈ c.sent.map Job.jobId

variable {c c' : TasqClient} {answered : List JobKey}

theorem Correlated.frame (h : Correlated c answered) (results : c'.results = c.results)
    (futures : c'.futures = c.futures) (created : c'.created = c.created) (sent : c'.sent = c.sent) :
    Correlated c' answered := by
  obtain ⟨keyed,stored,injective,done,answeredSent⟩ := h
  constructor <;> simp only [results,futures,created,sent] <;> assumption

/-- Storing a new future under a job's id and sending the job. -/
theorem Correlated.transmit (h : Correlated c answered) (job : Job) (fresh : job.jobId ∉ c.sent.map Job.jobId) :
    Correlated ((c.stored job.jobId).transmitted job) answered := by
  have entry : ∀ {k i}, ((c.stored job.jobId).transmitted job).results k = some i →
      (k = job.jobId ∧ i = c.created) ∨ (c.results k = some i ∧ i < c.created) := by
    intro k i found
    by_cases same : k = job.jobId
    · subst same
      simp only [TasqClient.transmitted,TasqClient.stored,Function.update_same,Option.some.injEq] at found
      exact .inl ⟨rfl,found.symm⟩
    · have old : c.results k = some i := by
        simpa [TasqClient.transmitted,TasqClient.stored,Function.update_noteq same] using found
      exact .inr ⟨old,(h.keyed k i old).1⟩
  refine ⟨fun k i found => ?_,fun j sent => ?_,fun k k' i found found' => ?_,fun k i found => ?_,
    fun k mem => by simpa [TasqClient.transmitted] using Or.inl (h.answeredSent k mem)⟩
  · rcases entry found with ⟨rfl,rfl⟩ | ⟨old,below⟩
    · simp [TasqClient.transmitted,TasqClient.stored]
    · exact ⟨by simp [TasqClient.transmitted,TasqClient.stored]; omega,
        by simp [TasqClient.transmitted,(h.keyed k i old).2]⟩
  · by_cases same : j.jobId = job.jobId
    · simp [TasqClient.transmitted,TasqClient.stored,same]
    · have : j ∈ c.sent :=
        (List.mem_append.mp sent).resolve_right fun mem => same (by rw [List.mem_singleton.mp mem])
      simpa [TasqClient.transmitted,TasqClient.stored,Function.update_noteq same] using h.stored j this
  · rcases entry found with ⟨rfl,rfl⟩ | ⟨old,below⟩ <;> rcases entry found' with ⟨rfl,same⟩ | ⟨old',below'⟩
    · rfl
    · omega
    · omega
    · exact h.injective k k' i old old'
  · rcases entry found with ⟨rfl,rfl⟩ | ⟨old,below⟩
    · exact .inl ⟨by simp [TasqClient.transmitted,TasqClient.stored],fun mem => fresh (h.answeredSent _ mem)⟩
    · simpa [TasqClient.transmitted,TasqClient.stored,Function.update_noteq (Nat.ne_of_lt below)] using h.done k i old

/-- The drain loop stores and sends each replayed job. -/
theorem Correlated.replay {jobs : List Job} (ran : replay jobs c = .ok () c') (h : Correlated c answered)
    (distinct : (jobs.map Job.jobId).Nodup) (fresh : ∀ j ∈ jobs, j.jobId ∉ c.sent.map Job.jobId) :
    Correlated c' answered := by
  induction jobs generalizing c with
  | nil => cases ran; exact h
  | cons job younger ih =>
    simp only [TasqClient.replay] at ran
    split at ran
    · cases ran
    · have requeued : Correlated { c with pending := younger.reverse } answered := h.frame rfl rfl rfl rfl
      refine ih ran (requeued.transmit job (fresh job (by simp))) (List.nodup_cons.mp distinct).2 fun j mem => ?_
      have other : j.jobId ≠ job.jobId := fun same =>
        (List.nodup_cons.mp distinct).1 (same ▸ List.mem_map_of_mem Job.jobId mem)
      simpa [TasqClient.transmitted,other] using fresh j (by simp [mem])

/-- A turn receiving the result of a sent job not answered before completes
that job's future. -/
theorem Correlated.deliver (h : Correlated c answered) {r : JobResult} (sent : r.name ∈ c.sent.map Job.jobId)
    (once : r.name ∉ answered) :
    ∃ i, c.results r.name = some i ∧ deliver r c = .ok () (c.completed i r) ∧
      Correlated (c.completed i r) (r.name :: answered) := by
  obtain ⟨j,mem,named⟩ := List.mem_map.mp sent
  obtain ⟨i,found⟩ := Option.ne_none_iff_exists'.mp (h.stored j mem)
  rw [named] at found
  have pending : c.futures i = none := by
    rcases h.done _ i found with ⟨pending,-⟩ | ⟨r',-,-,answeredNow⟩
    · exact pending
    · exact absurd answeredNow once
  refine ⟨i,found,by simp [TasqClient.deliver,setResult,found,pending],h.keyed,h.stored,h.injective,
    fun k i' found' => ?_,fun k mem => ?_⟩
  · by_cases same : k = r.name
    · subst same
      simp only [completed,found,Option.some.injEq] at found'
      subst found'
      exact .inr ⟨r,by simp [completed],rfl,by simp⟩
    · have other : i' ≠ i := fun same' => same (h.injective k r.name i (same' ▸ found') found)
      simpa [completed,Function.update_noteq other,same] using h.done k i' found'
  · rcases List.mem_cons.mp mem with rfl | mem
    · exact sent
    · exact h.answeredSent k mem

end Tasq.Correlation

namespace Tasq.Correlation
open TasqClient Fifo

/-- The client, the jobs the caller handed it, and the ids whose results the
gathering loop has received. -/
structure World where
  client : TasqClient
  accepted : List Job
  answered : List JobKey

def World.init (cls : ClientClass) (faults : List Bool) : World := ⟨TasqClient.init cls faults,[],[]⟩

/-- A call of the caller that returns, whose name no earlier call passed; or a
turn of the gathering loop that receives the result of a sent job, carrying its
id, not received before. -/
inductive Step : World → World → Prop
  | call {w : World} {op : Op} {c : TasqClient} (named : op.named)
      (fresh : ∀ j ∈ op.accepts, j.jobId ∉ w.accepted.map Job.jobId) (ran : op.call w.client = .ok () c) :
      Step w ⟨c,w.accepted ++ op.accepts,w.answered⟩
  | receive {w : World} {r : JobResult} {jobResult l : Local} {c : TasqClient}
      (sent : r.name ∈ w.client.sent.map Job.jobId) (once : r.name ∉ w.answered)
      (turn : gatherStep w.client.cls jobResult (.result r) w.client = .ok l c) :
      Step w ⟨c,w.accepted,r.name :: w.answered⟩

structure World.Inv (w : World) : Prop where
  released : Released w.client w.accepted
  distinct : (w.accepted.map Job.jobId).Nodup
  correlated : Correlated w.client w.answered

theorem World.initInv (cls : ClientClass) (faults : List Bool) : (World.init cls faults).Inv :=
  ⟨⟨rfl,fun h => nomatch h⟩,List.nodup_nil,
    ⟨fun _ _ h => (nomatch h),fun _ h => (nomatch h),fun _ _ _ h => (nomatch h),fun _ _ h => (nomatch h),
      fun _ h => (nomatch h)⟩⟩

theorem sentFresh {c : TasqClient} {accepted : List Job} (released : Released c accepted) {k : JobKey}
    (fresh : k ∉ accepted.map Job.jobId) : k ∉ c.sent.map Job.jobId := fun mem =>
  fresh (by rw [← released.order,List.map_append]; exact List.mem_append_left _ mem)

theorem scheduleCorrelated {name uuid call c c' answered v} (ran : schedule name uuid call c = .ok v c')
    (named : name.getD JobKey.unnamed ≠ JobKey.unnamed) (h : Correlated c answered)
    (fresh : (Job.new (name.getD JobKey.unnamed) uuid call).jobId ∉ c.sent.map Job.jobId) :
    Correlated c' answered := by
  rcases scheduleCases ran with ⟨-,same⟩ | ⟨-,-,same⟩ | ⟨-,-,same⟩ <;> cases same
  · exact h.frame rfl rfl rfl rfl
  · have key := Job.newNamed uuid call named
    rw [key] at fresh ⊢
    exact h.transmit _ fresh

theorem connectCorrelated {c c' answered accepted} (ran : TasqClient.connect c = .ok () c')
    (h : Correlated c answered) (released : Released c accepted) (distinct : (accepted.map Job.jobId).Nodup) :
    Correlated c' answered := by
  rw [connectEq] at ran
  rcases connectWithCases ran with ⟨-,same⟩ | ⟨-,c1,started,replayed⟩ | ⟨-,e,c1,-,same⟩
  · cases same; exact h
  · have frame := connectPreludeFrame c.cls c
    rw [started,afterOk] at frame
    rw [← released.order,List.map_append,List.nodup_append] at distinct
    obtain ⟨-,queued,disjoint⟩ := distinct
    refine Correlated.replay replayed.symm (h.frame frame.results frame.futures frame.created frame.sent)
      (by rw [frame.pending]; exact queued) fun j mem mem' => ?_
    rw [frame.pending] at mem
    rw [frame.sent] at mem'
    exact disjoint mem' (List.mem_map_of_mem Job.jobId mem)
  · cases same

theorem callCorrelated {op : Op} {c c' answered accepted} (ran : op.call c = .ok () c') (named : op.named)
    (fresh : ∀ j ∈ op.accepts, j.jobId ∉ accepted.map Job.jobId) (h : Correlated c answered)
    (released : Released c accepted) (distinct : (accepted.map Job.jobId).Nodup) : Correlated c' answered := by
  cases op with
  | schedule name uuid call =>
    obtain ⟨v,ran⟩ := discardOk ran
    exact scheduleCorrelated ran named h (sentFresh released (fresh _ (List.mem_singleton_self _)))
  | scheduleBlocking name uuid call =>
    obtain ⟨v,ran⟩ := discardOk ran
    rcases scheduleBlockingCases ran with ⟨-,same⟩ | ⟨-,same⟩
    · cases same
    · exact scheduleCorrelated same.symm named h (sentFresh released (fresh _ (List.mem_singleton_self _)))
  | connect => exact connectCorrelated ran h released distinct
  | disconnect => rw [Op.call,disconnectEq] at ran; cases ran; exact h.frame rfl rfl rfl rfl
  | close => rw [Op.call,closeEq] at ran; cases ran; exact h.frame rfl rfl rfl rfl

/-- Every class's loop delivers a received result; for a sent job not answered
before, that completes the job's future and returns. -/
theorem receiveCompletes {c : TasqClient} {answered} (h : Correlated c answered) {r : JobResult}
    (sent : r.name ∈ c.sent.map Job.jobId) (once : r.name ∉ answered) :
    ∃ i, c.results r.name = some i ∧ Correlated (c.completed i r) (r.name :: answered) ∧
      ∀ cls jobResult, gatherStep cls jobResult (.result r) c = .ok (some (some r)) (c.completed i r) := by
  obtain ⟨i,found,delivered,correlated⟩ := h.deliver sent once
  exact ⟨i,found,correlated,fun cls jobResult => by rw [gatherStepResult,delivered]⟩

theorem Step.inv {w w' : World} (step : Step w w') (inv : w.Inv) : w'.Inv := by
  cases step with
  | @call op c named fresh ran =>
    refine ⟨stepReleased ran inv.released,?_,callCorrelated ran named fresh inv.correlated inv.released inv.distinct⟩
    rw [List.map_append,List.nodup_append]
    refine ⟨inv.distinct,?_,fun k mem mem' => ?_⟩
    · cases op <;> simp [Op.accepts]
    · obtain ⟨j,inside,rfl⟩ := List.mem_map.mp mem'
      exact fresh j inside mem
  | @receive r jobResult l c sent once turn =>
    obtain ⟨i,-,correlated,completes⟩ := receiveCompletes inv.correlated sent once
    rw [completes] at turn
    cases turn
    exact ⟨⟨inv.released.order,inv.released.drained⟩,inv.distinct,correlated⟩

theorem World.reachInv {cls faults} {w : World} (reach : Relation.ReflTransGen Step (World.init cls faults) w) :
    w.Inv := by
  induction reach with
  | refl => exact World.initInv cls faults
  | tail _ step ih => exact step.inv ih

/-- Result correlation for named jobs. In every interleaving of a client's calls
with its gathering loop's turns, for any class and broker, where every
`schedule` passes a name no earlier call passed, every call returns, and the
loop receives only results of sent jobs, each once: every entry of the results
map is a sent job's id, with a future that is pending until that job's result is
received and then holds it; every sent job has an entry; no two entries share a
future; and a turn receiving the result of a sent job not answered before
completes that job's future and returns. -/
theorem namedResultsCorrelate (cls : ClientClass) (faults : List Bool) (w : World)
    (reach : Relation.ReflTransGen Step (World.init cls faults) w) :
    (∀ k i, w.client.results k = some i → k ∈ w.client.sent.map Job.jobId ∧
      ((w.client.futures i = none ∧ k ∉ w.answered) ∨
        (∃ r, w.client.futures i = some r ∧ r.name = k ∧ k ∈ w.answered))) ∧
    (∀ j ∈ w.client.sent, w.client.results j.jobId ≠ none) ∧
    (∀ k k' i, w.client.results k = some i → w.client.results k' = some i → k = k') ∧
    (∀ r, r.name ∈ w.client.sent.map Job.jobId → r.name ∉ w.answered →
      ∃ i, w.client.results r.name = some i ∧ ∀ jobResult,
        gatherStep w.client.cls jobResult (.result r) w.client = .ok (some (some r)) (w.client.completed i r)) := by
  have h := (World.reachInv reach).correlated
  refine ⟨fun k i found => ⟨(h.keyed k i found).2,h.done k i found⟩,h.stored,h.injective,fun r sent once => ?_⟩
  obtain ⟨i,found,-,completes⟩ := receiveCompletes h sent once
  exact ⟨i,found,completes w.client.cls⟩

/-- A fresh Redis client after `connect()`, `schedule(f, name='a')` and the
receipt of `a`'s result. -/
def answeredA : World :=
  ⟨((connectedClient .redis).stored (.name "a")).transmitted (Job.new (.name "a") 0 ⟨"f",[],[]⟩) |>.completed 0 resultA,
    [Job.new (.name "a") 0 ⟨"f",[],[]⟩],[.name "a"]⟩

/-- `answeredA` is reached by `connect()`, `schedule(f, name='a')` and the
receipt of `a`'s result. -/
theorem answeredAReach : Relation.ReflTransGen Step (World.init .redis []) answeredA := by
  let c1 : TasqClient := { TasqClient.init .redis [] with isConnected := true,gatherer := .alive }
  let job : Job := Job.new (.name "a") 0 ⟨"f",[],[]⟩
  let c2 : TasqClient := (c1.stored (.name "a")).transmitted job
  have connected : Op.connect.call (TasqClient.init .redis []) = .ok () c1 :=
    (@connectAfterPrelude (TasqClient.init .redis []) c1 rfl rfl).trans rfl
  have s1 : Step (World.init .redis []) ⟨c1,[],[]⟩ :=
    @Step.call (World.init .redis []) .connect c1 trivial (by simp [Op.accepts]) connected
  have s2 : Step ⟨c1,[],[]⟩ ⟨c2,[job],[]⟩ :=
    @Step.call ⟨c1,[],[]⟩ (.schedule (some (.name "a")) 0 ⟨"f",[],[]⟩) c2
      (show JobKey.name "a" ≠ JobKey.unnamed by decide) (by simp) rfl
  have s3 : Step ⟨c2,[job],[]⟩ answeredA := by
    rw [answeredA,connectedClientEq]
    exact @Step.receive ⟨c2,[job],[]⟩ resultA none _ _ (by decide) (by simp) rfl
  exact .tail (.tail (.tail .refl s1) s2) s3

theorem answeredACorrelated :
    Relation.ReflTransGen Step (World.init .redis []) answeredA ∧
    (∀ k i, answeredA.client.results k = some i → k ∈ answeredA.client.sent.map Job.jobId ∧
      ((answeredA.client.futures i = none ∧ k ∉ answeredA.answered) ∨
        (∃ r, answeredA.client.futures i = some r ∧ r.name = k ∧ k ∈ answeredA.answered))) ∧
    (∀ j ∈ answeredA.client.sent, answeredA.client.results j.jobId ≠ none) ∧
    (∀ k k' i, answeredA.client.results k = some i → answeredA.client.results k' = some i → k = k') ∧
    (∀ r, r.name ∈ answeredA.client.sent.map Job.jobId → r.name ∉ answeredA.answered →
      ∃ i, answeredA.client.results r.name = some i ∧ ∀ jobResult,
        gatherStep answeredA.client.cls jobResult (.result r) answeredA.client =
          .ok (some (some r)) (answeredA.client.completed i r)) :=
  ⟨answeredAReach,namedResultsCorrelate .redis [] answeredA answeredAReach⟩

/-- `pending_results()` in such a run: it keeps exactly the entries of the sent
jobs whose result has not been received. -/
theorem pendingResultsUnanswered (cls : ClientClass) (faults : List Bool) (w : World)
    (reach : Relation.ReflTransGen Step (World.init cls faults) w) (k : JobKey) :
    (pendingResults w.client k).isSome ↔ k ∈ w.client.sent.map Job.jobId ∧ k ∉ w.answered := by
  have h := (World.reachInv reach).correlated
  constructor
  · intro kept
    obtain ⟨i,found,pending⟩ : ∃ i, w.client.results k = some i ∧ w.client.futures i = none := by
      cases found : w.client.results k with
      | none => simp [pendingResults,found] at kept
      | some i => exact ⟨i,rfl,by simpa [pendingResults,found,Option.filter_some] using kept⟩
    refine ⟨(h.keyed k i found).2,?_⟩
    rcases h.done k i found with ⟨-,unanswered⟩ | ⟨r,done,-,-⟩
    · exact unanswered
    · simp [pending] at done
  · rintro ⟨sent,unanswered⟩
    obtain ⟨j,mem,rfl⟩ := List.mem_map.mp sent
    obtain ⟨i,found⟩ := Option.ne_none_iff_exists'.mp (h.stored j mem)
    rcases h.done _ i found with ⟨pending,-⟩ | ⟨r,-,-,answered⟩
    · simp [pendingResults,found,pending,Option.filter_some]
    · exact absurd answered unanswered

/-- Once `a`'s result is received, `pending_results()` no longer holds `a`. -/
theorem answeredANotPending :
    Relation.ReflTransGen Step (World.init .redis []) answeredA ∧
    ((pendingResults answeredA.client (.name "a")).isSome ↔
      JobKey.name "a" ∈ answeredA.client.sent.map Job.jobId ∧ JobKey.name "a" ∉ answeredA.answered) :=
  ⟨answeredAReach,pendingResultsUnanswered .redis [] answeredA answeredAReach (.name "a")⟩

end Tasq.Correlation
