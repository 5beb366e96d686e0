import Tasq.Client.Race
import Tasq.Client.Futures

/-! The gathering loop at the grain of Python statements, beside the `connect()`
and `schedule()` calls of `Tasq.Concurrent`. A turn of the loop is its receive
with `if not job_result: continue`, the lookup `self._results[job_result.name]`,
and `set_result` on the future that lookup found; run with nothing between
them they are the turn of `gatherStep`. Another thread can run between the
lookup and the `set_result`, so a future can be completed after a `schedule` of
the same name has replaced it in the map. Still, over every interleaving, a
future is completed only with a result carrying the name it was stored under:
the map's entries stay keyed, and a future `schedule` returned holds, once
done, a result carrying that call's name. -/
namespace Tasq.Concurrent
open TasqClient

/-- Where the gathering loop is: before its receive, before the lookup of the
result it received, before `set_result` on the future that lookup found, or out
of the loop after an exception. -/
inductive GatherPc where
  | receive
  | lookup (r : JobResult)
  | set (future : Nat) (r : JobResult)
  | ended
  deriving DecidableEq, Repr

/-- The receive and `if not job_result: continue` of the loop of class `cls`:
the local `job_result` after them and the result to look up, none on
`continue`; or the exception out of them. -/
def receiveStep (cls : ClientClass) (jobResult : Local) (received : Received) :
    Except GatherError (Local × Option JobResult) :=
  match cls with
  | .zmq =>
    let jobResult := match received with
      | .result r => some (some r)
      | .empty => some none
      | .failed _ => jobResult
    match jobResult with
    | none => .error .unboundLocal
    | some none => .ok (jobResult,none)
    | some (some r) => .ok (jobResult,some r)
  | .redis | .rabbitmq =>
    match received with
    | .result r => .ok (some (some r),some r)
    | .empty => .ok (some none,none)
    | .failed _ => .error .receive

/-- A turn of each class's loop is its receive, then, for a result, the lookup
and `set_result` of `deliver`. -/
theorem gatherStepSplit (cls : ClientClass) (jobResult : Local) (received : Received) (c : TasqClient) :
    gatherStep cls jobResult received c =
      match receiveStep cls jobResult received with
      | .error e => .error e c
      | .ok (jobResult',none) => .ok jobResult' c
      | .ok (jobResult',some r) =>
        match deliver r c with
        | .ok _ c' => .ok jobResult' c'
        | .error e c' => .error e c' := by
  cases received with
  | result r => rw [gatherStepResult]; cases cls <;> cases delivered : deliver r c <;> simp [receiveStep,delivered]
  | empty => cases cls <;> rfl
  | failed terminated =>
    cases cls
    · rcases jobResult with _ | _ | r
      · rfl
      · rfl
      · simp only [gatherStep,ZMQTasqClient.gatherStep,bindApply,pureApply,receiveStep]
        cases deliver r c <;> rfl
    all_goals rfl

/-- A race with the gathering loop running beside it, and the loop's local
`job_result`. -/
structure Mixed where
  race : Race
  jobResult : Local
  gather : GatherPc

/-- The thread taking the next statement: one of the race's, or the gathering
loop at its receive, given what the receive gets, at its lookup, or at its
`set_result`. -/
inductive Mover where
  | race (t : Thread)
  | receive (received : Received)
  | lookup
  | set
  deriving DecidableEq, Repr

/-- An exception out of the loop ends `run()`, and with it the thread. -/
def Mixed.ended (m : Mixed) (c : TasqClient) : Mixed :=
  { m with race := { m.race with client := { c with gatherer := .stopped } },gather := .ended }

/-- The loop receives only once `connect` has started its thread. -/
def Mixed.step (m : Mixed) : Mover → Option Mixed
  | .race t => (m.race.step t).map fun r => { m with race := r }
  | .receive received =>
    match m.gather with
    | .receive =>
      if m.race.client.gatherer.isAlive then
        match receiveStep m.race.client.cls m.jobResult received with
        | .error _ => some (m.ended m.race.client)
        | .ok (jobResult,none) => some { m with jobResult := jobResult }
        | .ok (jobResult,some r) => some { m with jobResult := jobResult,gather := .lookup r }
      else none
    | _ => none
  | .lookup =>
    match m.gather with
    | .lookup r =>
      match m.race.client.results r.name with
      | none => some { m with gather := .receive }
      | some future => some { m with gather := .set future r }
    | _ => none
  | .set =>
    match m.gather with
    | .set future r =>
      match setResult future r m.race.client with
      | .ok _ c => some { m with race := { m.race with client := c },gather := .receive }
      | .error _ c => some (m.ended c)
    | _ => none

def Mixed.run : Mixed → List Mover → Option Mixed
  | m, [] => some m
  | m, t :: ts => (m.step t).bind fun m' => m'.run ts

/-- The calls of `requests` and a `connect()`, none started, beside the loop
of a session, before its receive and with the session's `job_result`. -/
def Mixed.start (s : Session) (requests : List Request) : Mixed :=
  ⟨Race.start s.client requests,s.jobResult,.receive⟩

/-- The call `connect` is inside, replaying a popped job. -/
def ConnectPc.call? : ConnectPc → Option ScheduleCall
  | .replay call => some call
  | _ => none

/-- The calls of a race by slot: `none` for the one `connect` is replaying,
`some i` for the `i`-th `schedule()` call. -/
def Race.callAt (r : Race) : Option Nat → Option ScheduleCall
  | none => r.connect.call?
  | some i => r.calls[i]?

/-- The future a call holds from `TasqFuture()` on: the one it is about to
store, to send after, or has returned. -/
def SchedulePc.future? : SchedulePc → Option Nat
  | .store f | .send f | .returned (some f) => some f
  | _ => none

/-- The calls `calls'` after a statement that drew no future: each holds a
future only where the call before it in its slot held it, under that call's
name, and is about to store one only where that call was. -/
structure Follows (calls' calls : Option Nat → Option ScheduleCall) : Prop where
  held : ∀ p x f, calls' p = some x → x.pc.future? = some f →
    ∃ y, calls p = some y ∧ y.pc.future? = some f ∧ y.name = x.name
  unstored : ∀ p x f, calls' p = some x → x.pc = .store f → ∃ y, calls p = some y ∧ y.pc = .store f

theorem Follows.refl (calls : Option Nat → Option ScheduleCall) : Follows calls calls :=
  ⟨fun _ x _ found held => ⟨x,found,held,rfl⟩,fun _ x _ found stored => ⟨x,found,stored⟩⟩

/-- What one statement of a `schedule` call does to the results map and the
futures: nothing, while the call keeps at most the future it held (`if not
self.is_connected`, `appendleft`, `send`); or `TasqFuture()`; or
`self._results[name] = future`. -/
theorem ScheduleCall.stepCases {call call' : ScheduleCall} {c c' : TasqClient} {dropped : List Job}
    (h : call.step c = some (call',c',dropped)) :
    (c'.results = c.results ∧ c'.futures = c.futures ∧ c'.created = c.created ∧ call'.name = call.name ∧
      (∀ f, call'.pc.future? = some f → call.pc.future? = some f) ∧ ∀ f, call'.pc ≠ .store f) ∨
    (call.pc = .create ∧ call'.pc = .store c.created ∧ c'.results = c.results ∧
      c'.futures = Function.update c.futures c.created none ∧ c'.created = c.created + 1) ∨
    ∃ f, call.pc = .store f ∧ call'.pc = .send f ∧ call'.name = call.name ∧
      c'.results = Function.update c.results call.name (some f) ∧ c'.futures = c.futures ∧ c'.created = c.created := by
  unfold ScheduleCall.step at h
  split at h <;> rename_i pc
  · cases h
    refine .inl ⟨rfl,rfl,rfl,rfl,fun f held => ?_,fun f => ?_⟩ <;> by_cases online : c.isConnected <;>
      simp [SchedulePc.future?,online] at *
  · cases h
    exact .inl ⟨rfl,rfl,rfl,rfl,fun f held => by simp [SchedulePc.future?] at held,nofun⟩
  · simp only [newFuture,Option.some.injEq,Prod.mk.injEq] at h
    obtain ⟨rfl,rfl,rfl⟩ := h
    exact .inr (.inl ⟨pc,rfl,rfl,rfl,rfl⟩)
  · simp only [store,Option.some.injEq,Prod.mk.injEq] at h
    obtain ⟨rfl,rfl,rfl⟩ := h
    exact .inr (.inr ⟨_,pc,rfl,rfl,rfl,rfl,rfl⟩)
  · split at h <;> rename_i sent <;> simp only [Option.some.injEq,Prod.mk.injEq] at h <;>
      obtain ⟨rfl,rfl,rfl⟩ := h <;>
      rcases sendCases sent with ⟨-,same⟩ | ⟨-,same⟩ <;> cases same
    · exact .inl ⟨rfl,rfl,rfl,rfl,fun f held => by simpa [SchedulePc.future?,pc] using held,nofun⟩
    · exact .inl ⟨rfl,rfl,rfl,rfl,fun f held => by simp [SchedulePc.future?] at held,nofun⟩
  all_goals cases h

theorem startForKeeps (cls : ClientClass) (c : TasqClient) :
    (after (startFor cls c)).results = c.results ∧ (after (startFor cls c)).futures = c.futures ∧
      (after (startFor cls c)).created = c.created := by
  unfold startFor startGatherer
  cases cls <;> dsimp only <;> repeat' split
  all_goals exact ⟨rfl,rfl,rfl⟩

/-- What one statement of `connect` does to the results map and the futures:
outside its replay, nothing, and a call it starts replaying is at its first
statement; inside, what the statement of the replayed call does. -/
theorem connectStepCases {cls : ClientClass} {pc pc' : ConnectPc} {c c' : TasqClient} {dropped : List Job}
    (h : connectStep cls pc c = some (pc',c',dropped)) :
    (c'.results = c.results ∧ c'.futures = c.futures ∧ c'.created = c.created ∧
      ∀ call, pc'.call? = some call → call.pc = .check) ∨
    ∃ call call', pc = .replay call ∧ call.step c = some (call',c',dropped) ∧ pc' = resume call' := by
  unfold connectStep at h
  split at h
  · cases h; left; split <;> (try split) <;> simp [ConnectPc.call?]
  · split at h <;> cases h <;> rename_i called <;>
      rcases brokerCallCases called with ⟨-,same⟩ | ⟨-,same⟩ <;> cases same <;> simp [ConnectPc.call?]
  · cases h; simp [ConnectPc.call?,flagged]
  · have frame := startForKeeps cls c
    split at h <;> cases h <;> rename_i started <;>
      simp only [started,afterOk,afterError] at frame <;> simp [ConnectPc.call?,frame]
  · cases h; split <;> simp [ConnectPc.call?]
  · split at h <;> cases h <;> simp [ConnectPc.call?]
  · rename_i call
    simp only [Option.map_eq_some'] at h
    obtain ⟨⟨call',c1,dropped1⟩,stepped,same⟩ := h
    cases same
    exact .inr ⟨call,call',rfl,stepped,rfl⟩
  all_goals cases h

theorem resumeCall (call : ScheduleCall) {x : ScheduleCall} (h : (resume call).call? = some x) : x = call := by
  unfold resume at h
  split at h <;> first | exact (Option.some.inj h).symm | cases h

/-- What one statement of a race does to the results map, the futures and the
calls: it leaves the map and the futures as they were, and every call where it
was or at its first statement; or one call takes a statement and the others
stay where they were. -/
theorem Race.stepCases {r r' : Race} {t : Thread} (h : r.step t = some r') :
    (r'.client.results = r.client.results ∧ r'.client.futures = r.client.futures ∧
      r'.client.created = r.client.created ∧ Follows r'.callAt r.callAt) ∨
    ∃ p call call' dropped, r.callAt p = some call ∧ call.step r.client = some (call',r'.client,dropped) ∧
      (∀ q, q ≠ p → r'.callAt q = r.callAt q) ∧ ∀ x, r'.callAt p = some x → x = call' := by
  cases t with
  | connect =>
    simp only [Race.step,Option.map_eq_some'] at h
    obtain ⟨⟨pc,c,dropped⟩,stepped,rfl⟩ := h
    rcases connectStepCases stepped with ⟨results,futures,created,fresh⟩ | ⟨call,call',was,stepped',rfl⟩
    · refine .inl ⟨results,futures,created,⟨?_,?_⟩⟩ <;> rintro (_ | i) x f found mark
      · rw [fresh x found] at mark; cases mark
      · exact ⟨x,found,mark,rfl⟩
      · rw [fresh x found] at mark; cases mark
      · exact ⟨x,found,mark⟩
    · refine .inr ⟨none,call,call',dropped,by simp [Race.callAt,was,ConnectPc.call?],stepped',?_,
        fun x found => resumeCall call' found⟩
      rintro (_ | i) other
      · exact absurd rfl other
      · rfl
  | schedule i =>
    simp only [Race.step] at h
    split at h
    · cases h
    · rename_i call found
      simp only [Option.map_eq_some'] at h
      obtain ⟨⟨call',c,dropped⟩,stepped,rfl⟩ := h
      have bound := (List.getElem?_eq_some_iff.mp found).1
      refine .inr ⟨some i,call,call',dropped,found,stepped,?_,fun x moved => ?_⟩
      · rintro (_ | j) other
        · rfl
        · exact List.getElem?_set_ne fun same => other (congrArg some same.symm)
      · simp only [Race.callAt,List.getElem?_set_self bound,Option.some.injEq] at moved
        exact moved.symm

end Tasq.Concurrent

namespace Tasq
open TasqClient

section
variable {c c' : TasqClient}

/-- `TasqFuture()` draws a pending future past every entry. -/
theorem Ledger.draw (h : Ledger c) (results : c'.results = c.results)
    (futures : c'.futures = Function.update c.futures c.created none) (created : c'.created = c.created + 1) :
    Ledger c' where
  below k j found := by rw [results] at found; have := h.below k j found; omega
  fresh j above := by rw [futures,Function.update_noteq (by omega)]; exact h.fresh j (by omega)
  injective := results ▸ h.injective
  keyed k j r found done := by
    rw [results] at found
    rw [futures,Function.update_noteq (h.below k j found).ne] at done
    exact h.keyed k j r found done

/-- `self._results[name] = future` of a drawn, pending future in the map under
no key. -/
theorem Ledger.store (h : Ledger c) {name : JobKey} {f : Nat} (below : f < c.created)
    (pending : c.futures f = none) (unreferenced : ∀ k, c.results k ≠ some f)
    (results : c'.results = Function.update c.results name (some f)) (futures : c'.futures = c.futures)
    (created : c'.created = c.created) : Ledger c' where
  below k j found := by
    rw [results,Function.update_apply] at found
    split_ifs at found
    · cases found; omega
    · have := h.below k j found; omega
  fresh j above := by rw [futures]; exact h.fresh j (by omega)
  injective k k' j found found' := by
    rw [results,Function.update_apply] at found found'
    split_ifs at found found' with same same'
    · exact same.trans same'.symm
    · cases found; exact absurd found' (unreferenced k')
    · cases found'; exact absurd found (unreferenced k)
    · exact h.injective k k' j found found'
  keyed k j r found done := by
    rw [results,Function.update_apply] at found
    rw [futures] at done
    split_ifs at found
    · cases found; rw [pending] at done; cases done
    · exact h.keyed k j r found done

end

end Tasq

namespace Tasq.Concurrent
open TasqClient

/-- Storing `f` under `name` leaves another future `g` what some key maps to or
in the map under no key, by the injectivity of the map. -/
theorem storeKeepsHolder {results : JobKey → Option Nat}
    (injective : ∀ k k' i, results k = some i → results k' = some i → k = k') {name key : JobKey} {f g : Nat}
    (other : g ≠ f) (h : results key = some g ∨ ∀ k, results k ≠ some g) :
    Function.update results name (some f) key = some g ∨ ∀ k, Function.update results name (some f) k ≠ some g := by
  by_cases kept : key ≠ name ∧ results key = some g
  · exact .inl (by rw [Function.update_noteq kept.1]; exact kept.2)
  · refine .inr fun k found => ?_
    rw [Function.update_apply] at found
    split_ifs at found with named
    · exact other (Option.some.inj found).symm
    · rcases h with held | unreferenced
      · exact kept ⟨fun same => named ((injective k key g found held).trans same),held⟩
      · exact unreferenced k found

/-- What every reachable state of a race beside the loop keeps, over the
client, its calls by slot and where the loop is: the ledger of the results map;
no two calls hold one future; a future a call holds was drawn from the counter,
holds once done a result carrying the call's name, and is what that name maps
to or is in the map under no key; a future a call is about to store is pending
and in the map under no key; and the future the loop is about to complete was
drawn, no key but the result's name maps to it, and each call holding it has
stored it, under that name. -/
structure Routing (c : TasqClient) (calls : Option Nat → Option ScheduleCall) (gather : GatherPc) : Prop where
  ledger : Ledger c
  apart : ∀ p q a b f, calls p = some a → calls q = some b → a.pc.future? = some f → b.pc.future? = some f →
    p = q
  held : ∀ p call f, calls p = some call → call.pc.future? = some f →
    f < c.created ∧ (∀ r, c.futures f = some r → r.name = call.name) ∧
      (c.results call.name = some f ∨ ∀ k, c.results k ≠ some f)
  unstored : ∀ p call f, calls p = some call → call.pc = .store f →
    c.futures f = none ∧ ∀ k, c.results k ≠ some f
  found : ∀ f r, gather = .set f r → f < c.created ∧ (∀ k, c.results k = some f → k = r.name) ∧
    ∀ p call, calls p = some call → call.pc.future? = some f → call.pc ≠ .store f ∧ call.name = r.name

section
variable {c c' : TasqClient} {calls calls' : Option Nat → Option ScheduleCall} {gather gather' : GatherPc}

/-- A statement that leaves the map and the futures alone and draws no future. -/
theorem Routing.frame (h : Routing c calls gather) (results : c'.results = c.results)
    (futures : c'.futures = c.futures) (created : c'.created = c.created) (follows : Follows calls' calls)
    (set : ∀ f r, gather' = .set f r → gather = .set f r) : Routing c' calls' gather' where
  ledger := h.ledger.books (.frame h.ledger results futures created)
  apart p q a b f found found' held held' := by
    obtain ⟨a',found,held,-⟩ := follows.held p a f found held
    obtain ⟨b',found',held',-⟩ := follows.held q b f found' held'
    exact h.apart p q a' b' f found found' held held'
  held p x f found holds := by
    obtain ⟨y,found,holds,named⟩ := follows.held p x f found holds
    simpa only [results,futures,created,named] using h.held p y f found holds
  unstored p x f found stored := by
    obtain ⟨y,found,stored⟩ := follows.unstored p x f found stored
    simpa only [results,futures] using h.unstored p y f found stored
  found f r loop := by
    obtain ⟨below,keyed,holders⟩ := h.found f r (set f r loop)
    refine ⟨by rw [created]; exact below,fun k held => keyed k (by rwa [results] at held),
      fun p x found holds => ?_⟩
    obtain ⟨y,found',holds',named⟩ := follows.held p x f found holds
    refine ⟨fun stored => ?_,named ▸ (holders p y found' holds').2⟩
    obtain ⟨y',found'',stored'⟩ := follows.unstored p x f found stored
    cases found'.symm.trans found''
    exact (holders p y found' holds').1 stored'

/-- The calls after a statement of the call in slot `p`. -/
def Moved (calls' calls : Option Nat → Option ScheduleCall) (p : Option Nat) (call' : ScheduleCall) : Prop :=
  ∀ q x, calls' q = some x → (q = p ∧ x = call') ∨ (q ≠ p ∧ calls q = some x)

/-- `TasqFuture()` in the call of slot `p`. -/
theorem Routing.draw (h : Routing c calls gather) {p : Option Nat} {call' : ScheduleCall}
    (moved : Moved calls' calls p call') (now : call'.pc = .store c.created) (results : c'.results = c.results)
    (futures : c'.futures = Function.update c.futures c.created none) (created : c'.created = c.created + 1) :
    Routing c' calls' gather := by
  have unreferenced : ∀ k, c.results k ≠ some c.created := fun k found =>
    absurd (h.ledger.below k _ found) (lt_irrefl _)
  have holder : ∀ q x g, calls' q = some x → x.pc.future? = some g →
      (q = p ∧ x = call' ∧ g = c.created) ∨ (calls q = some x ∧ g < c.created) := by
    intro q x g found holds
    rcases moved q x found with ⟨same,rfl⟩ | ⟨-,old⟩
    · rw [now] at holds; exact .inl ⟨same,rfl,(Option.some.inj holds).symm⟩
    · exact .inr ⟨old,(h.held q x g old holds).1⟩
  refine ⟨h.ledger.draw results futures created,fun q q' a b g found found' holds holds' => ?_,
    fun q x g found holds => ?_,fun q x g found stored => ?_,fun g r loop => ?_⟩
  · rcases holder q a g found holds with ⟨rfl,-,same⟩ | ⟨old,below⟩ <;>
      rcases holder q' b g found' holds' with ⟨rfl,-,same'⟩ | ⟨old',below'⟩
    · rfl
    · omega
    · omega
    · exact h.apart q q' a b g old old' holds holds'
  · rcases holder q x g found holds with ⟨-,rfl,rfl⟩ | ⟨old,below⟩
    · refine ⟨by omega,fun r done => ?_,.inr fun k => by rw [results]; exact unreferenced k⟩
      rw [futures,Function.update_same] at done
      cases done
    · obtain ⟨-,done,named⟩ := h.held q x g old holds
      exact ⟨by omega,fun r held => done r (by rwa [futures,Function.update_noteq below.ne] at held),
        by rwa [results]⟩
  · rcases moved q x found with ⟨-,rfl⟩ | ⟨-,old⟩
    · rw [now,SchedulePc.store.injEq] at stored
      subst stored
      exact ⟨by rw [futures,Function.update_same],fun k => by rw [results]; exact unreferenced k⟩
    · obtain ⟨pending,unreferenced'⟩ := h.unstored q x g old stored
      have below := (h.held q x g old (by rw [stored]; rfl)).1
      exact ⟨by rwa [futures,Function.update_noteq below.ne],by rwa [results]⟩
  · obtain ⟨below,keyed,holders⟩ := h.found g r loop
    refine ⟨by omega,by rwa [results],fun q x found holds => ?_⟩
    rcases holder q x g found holds with ⟨-,-,rfl⟩ | ⟨old,-⟩
    · omega
    · exact holders q x old holds

/-- `self._results[name] = future` in the call of slot `p`. -/
theorem Routing.store (h : Routing c calls gather) {p : Option Nat} {call call' : ScheduleCall} {f : Nat}
    (found : calls p = some call) (moved : Moved calls' calls p call') (was : call.pc = .store f)
    (now : call'.pc = .send f) (named : call'.name = call.name)
    (results : c'.results = Function.update c.results call.name (some f)) (futures : c'.futures = c.futures)
    (created : c'.created = c.created) : Routing c' calls' gather := by
  have mine := h.held p call f found (by rw [was]; rfl)
  obtain ⟨pending,unreferenced⟩ := h.unstored p call f found was
  have holder : ∀ q x g, calls' q = some x → x.pc.future? = some g →
      (q = p ∧ x = call' ∧ g = f) ∨ (q ≠ p ∧ calls q = some x ∧ g ≠ f) := by
    intro q x g found' holds
    rcases moved q x found' with ⟨same,rfl⟩ | ⟨other,old⟩
    · rw [now] at holds; exact .inl ⟨same,rfl,(Option.some.inj holds).symm⟩
    · refine .inr ⟨other,old,fun same => other (h.apart q p x call g old found holds ?_)⟩
      rw [was,same]; rfl
  refine ⟨h.ledger.store mine.1 pending unreferenced results futures created,
    fun q q' a b g found found' holds holds' => ?_,fun q x g found' holds => ?_,
    fun q x g found' stored => ?_,fun g r loop => ?_⟩
  · rcases holder q a g found holds with ⟨rfl,-,same⟩ | ⟨-,old,other⟩ <;>
      rcases holder q' b g found' holds' with ⟨rfl,-,same'⟩ | ⟨-,old',other'⟩
    · rfl
    · exact absurd same other'
    · exact absurd same' other
    · exact h.apart q q' a b g old old' holds holds'
  · rcases holder q x g found' holds with ⟨-,rfl,rfl⟩ | ⟨-,old,other⟩
    · refine ⟨by rw [created]; exact mine.1,fun r done => ?_,.inl (by rw [results,named,Function.update_same])⟩
      rw [futures,pending] at done
      cases done
    · obtain ⟨below,done,keyed⟩ := h.held q x g old holds
      exact ⟨by rw [created]; exact below,by rwa [futures],
        by rw [results]; exact storeKeepsHolder h.ledger.injective other keyed⟩
  · rcases holder q x g found' (by rw [stored]; rfl) with ⟨-,rfl,-⟩ | ⟨-,old,other⟩
    · rw [now] at stored; cases stored
    · obtain ⟨pending',unreferenced'⟩ := h.unstored q x g old stored
      refine ⟨by rwa [futures],fun k held => ?_⟩
      rw [results,Function.update_apply] at held
      split_ifs at held
      · exact other (Option.some.inj held).symm
      · exact unreferenced' k held
  · obtain ⟨below,keyed,holders⟩ := h.found g r loop
    have other : g ≠ f := fun same => (holders p call found (by rw [was,same]; rfl)).1 (by rw [was,same])
    refine ⟨by rw [created]; exact below,fun k held => ?_,fun q x found' holds => ?_⟩
    · rw [results,Function.update_apply] at held
      split_ifs at held
      · exact absurd (Option.some.inj held).symm other
      · exact keyed k held
    · rcases holder q x g found' holds with ⟨-,-,same⟩ | ⟨-,old,-⟩
      · exact absurd same other
      · exact holders q x old holds

/-- One statement of the call in slot `p`. -/
theorem Routing.callStep (h : Routing c calls gather) {p : Option Nat} {call call' : ScheduleCall}
    {dropped : List Job} (found : calls p = some call) (stepped : call.step c = some (call',c',dropped))
    (others : ∀ q, q ≠ p → calls' q = calls q) (only : ∀ x, calls' p = some x → x = call') :
    Routing c' calls' gather := by
  have moved : Moved calls' calls p call' := fun q x found' => by
    by_cases same : q = p
    · exact .inl ⟨same,only x (same ▸ found')⟩
    · exact .inr ⟨same,others q same ▸ found'⟩
  rcases ScheduleCall.stepCases stepped with
    ⟨results,futures,created,named,keeps,notStored⟩ | ⟨-,now,results,futures,created⟩ |
      ⟨f,was,now,named,results,futures,created⟩
  · refine h.frame results futures created ⟨fun q x g found' holds => ?_,fun q x g found' stored => ?_⟩
      fun _ _ => id
    · rcases moved q x found' with ⟨rfl,rfl⟩ | ⟨-,old⟩
      · exact ⟨call,found,keeps g holds,named.symm⟩
      · exact ⟨x,old,holds,rfl⟩
    · rcases moved q x found' with ⟨-,rfl⟩ | ⟨-,old⟩
      · exact absurd stored (notStored g)
      · exact ⟨x,old,stored⟩
  · exact h.draw moved now results futures created
  · exact h.store found moved was now named results futures created

/-- The lookup `self._results[job_result.name]` finding `f`. -/
theorem Routing.lookup {r : JobResult} {f : Nat} (h : Routing c calls (.lookup r))
    (found : c.results r.name = some f) : Routing c calls (.set f r) :=
  { h with
    found := fun g r' loop => by
      cases loop
      refine ⟨h.ledger.below _ _ found,fun k held => h.ledger.injective k r.name f held found,
        fun p call found' holds => ⟨fun stored => (h.unstored p call f found' stored).2 r.name found,?_⟩⟩
      rcases (h.held p call f found' holds).2.2 with named | unreferenced
      · exact h.ledger.injective _ _ f named found
      · exact absurd found (unreferenced r.name) }

/-- `set_result` completing the pending future `f` the lookup found. -/
theorem Routing.complete {r : JobResult} {f : Nat} (h : Routing c calls (.set f r))
    (pending : c.futures f = none) : Routing (c.completed f r) calls .receive := by
  obtain ⟨below,keyed,holders⟩ := h.found f r rfl
  have futures : (c.completed f r).futures = Function.update c.futures f (some r) := rfl
  have completes : ∀ g r', (c.completed f r).futures g = some r' → (g = f ∧ r' = r) ∨ c.futures g = some r' := by
    intro g r' done
    rw [futures,Function.update_apply] at done
    split_ifs at done with same
    · exact .inl ⟨same,(Option.some.inj done).symm⟩
    · exact .inr done
  refine ⟨⟨h.ledger.below,fun j above => ?_,h.ledger.injective,fun k j r' found done => ?_⟩,h.apart,
    fun p call g found holds => ?_,fun p call g found stored => ?_,nofun⟩
  · rw [futures,Function.update_noteq (by change c.created ≤ j at above; omega)]
    exact h.ledger.fresh j above
  · rcases completes j r' done with ⟨rfl,rfl⟩ | old
    · exact (keyed k found).symm
    · exact h.ledger.keyed k j r' found old
  · obtain ⟨below',done,named⟩ := h.held p call g found holds
    refine ⟨below',fun r' held => ?_,named⟩
    rcases completes g r' held with ⟨rfl,rfl⟩ | old
    · exact (holders p call found holds).2.symm
    · exact done r' old
  · obtain ⟨pending',unreferenced⟩ := h.unstored p call g found stored
    refine ⟨?_,unreferenced⟩
    rw [futures,Function.update_noteq fun same => (holders p call found (by rw [stored,same]; rfl)).1
      (by rw [stored,same])]
    exact pending'

end

/-- The invariant of a race beside the loop. -/
def Mixed.Routed (m : Mixed) : Prop := Routing m.race.client m.race.callAt m.gather

/-- Every statement of every thread keeps the invariant. -/
theorem Mixed.stepRouted {m m' : Mixed} {t : Mover} (h : m.Routed) (stepped : m.step t = some m') : m'.Routed := by
  cases t with
  | race t =>
    simp only [Mixed.step,Option.map_eq_some'] at stepped
    obtain ⟨r,raced,rfl⟩ := stepped
    rcases Race.stepCases raced with ⟨results,futures,created,follows⟩ | ⟨p,call,call',dropped,found,moved,others,only⟩
    · exact h.frame results futures created follows fun _ _ => id
    · exact h.callStep found moved others only
  | receive received =>
    simp only [Mixed.step] at stepped
    split at stepped <;> try cases stepped
    split_ifs at stepped
    split at stepped <;> cases stepped <;> refine h.frame rfl rfl rfl (.refl _) fun _ _ loop => ?_ <;>
      first | exact loop | cases loop
  | lookup =>
    simp only [Mixed.step] at stepped
    split at stepped <;> try cases stepped
    rename_i r loop
    unfold Mixed.Routed at h
    rw [loop] at h
    split at stepped <;> cases stepped
    · exact h.frame rfl rfl rfl (.refl _) fun _ _ => nofun
    · rename_i f found
      exact h.lookup found
  | set =>
    simp only [Mixed.step] at stepped
    split at stepped <;> try cases stepped
    rename_i f r loop
    unfold Mixed.Routed at h
    rw [loop] at h
    cases pending : m.race.client.futures f <;> simp only [setResult,pending] at stepped <;> cases stepped
    · exact h.complete pending
    · exact h.frame rfl rfl rfl (.refl _) fun _ _ => nofun

theorem Mixed.runRouted {m m' : Mixed} {moves : List Mover} (h : m.Routed) (ran : m.run moves = some m') :
    m'.Routed := by
  induction moves generalizing m with
  | nil => cases ran; exact h
  | cons t ts ih =>
    simp only [Mixed.run,Option.bind_eq_some] at ran
    obtain ⟨m1,stepped,rest⟩ := ran
    exact ih (Mixed.stepRouted h stepped) rest

/-- At the start no call has a future and the loop is before its receive. -/
theorem Mixed.startRouted {s : Session} (h : Ledger s.client) (requests : List Request) :
    (Mixed.start s requests).Routed := by
  have fresh : ∀ p x, (Mixed.start s requests).race.callAt p = some x → x.pc = .check := by
    rintro (_ | i) x found
    · cases found
    · simp only [Mixed.start,Race.start,Race.callAt,List.getElem?_map,Option.map_eq_some'] at found
      obtain ⟨_,_,rfl⟩ := found
      rfl
  refine ⟨h,fun p _ a _ f found _ held _ => ?_,fun p x f found held => ?_,fun p x f found stored => ?_,fun _ _ => nofun⟩
  · rw [fresh p a found] at held; cases held
  · rw [fresh p x found] at held; cases held
  · rw [fresh p x found] at stored; cases stored

end Tasq.Concurrent

namespace Tasq.Concurrent
open TasqClient

/-- The results map stays keyed and injective at the grain of statements: after
any history of calls and turns of a session, and then any interleaving of a
`connect()`, any `schedule()` calls and the statements of the gathering loop,
with the loop's lookup and its `set_result` apart, a done future under a key
holds a result carrying that key, and no two keys share a future. -/
theorem interleavedResultsKeyed (cls : ClientClass) (faults : List Bool) (pre : List Event)
    (requests : List Request) (moves : List Mover) (m : Mixed)
    (ran : (Mixed.start ((Session.init cls faults).run pre) requests).run moves = some m) :
    (∀ k i r, m.race.client.results k = some i → m.race.client.futures i = some r → r.name = k) ∧
    ∀ k k' i, m.race.client.results k = some i → m.race.client.results k' = some i → k = k' :=
  have h := Mixed.runRouted (Mixed.startRouted (Session.runLedger pre (Ledger.init cls faults)) requests) ran
  ⟨h.ledger.keyed,h.ledger.injective⟩

/-- Two `schedule(f, name='a')` calls and `connect()` on a fresh ZMQ client,
beside its loop. -/
def sameName : List Request := [(some (.name "a"),0,⟨"f",[],[]⟩),(some (.name "a"),1,⟨"f",[],[]⟩)]

/-- `connect()` runs to its return, starting the loop; the first call runs to
its return with future 0; the loop receives `a`'s result and looks it up,
finding 0; the second call runs to its return with future 1, replacing 0 under
`a`; then the loop's `set_result` completes 0. -/
def sameNameRun : List Mover :=
  [.race .connect,.race .connect,.race .connect,.race .connect,.race .connect,
   .race (.schedule 0),.race (.schedule 0),.race (.schedule 0),.race (.schedule 0),
   .receive (.result resultA1),.lookup,
   .race (.schedule 1),.race (.schedule 1),.race (.schedule 1),.race (.schedule 1),.set]

theorem sameNameRunKeyed :
    ∃ m, (Mixed.start ((Session.init .zmq []).run []) sameName).run sameNameRun = some m ∧
      (∀ k i r, m.race.client.results k = some i → m.race.client.futures i = some r → r.name = k) ∧
      ∀ k k' i, m.race.client.results k = some i → m.race.client.results k' = some i → k = k' :=
  ⟨_,rfl,interleavedResultsKeyed .zmq [] [] sameName sameNameRun _ rfl⟩

/-- A future a `schedule()` call returned holds, once done, a result carrying
that call's name, in every interleaving, though a later `schedule` of the same
name may have taken its place in the map and the loop complete it after: the
loop completes only a future its lookup found under the result's name, and a
future, once out of the map, never comes back. -/
theorem returnedFutureOwnResult (cls : ClientClass) (faults : List Bool) (pre : List Event)
    (requests : List Request) (moves : List Mover) (m : Mixed)
    (ran : (Mixed.start ((Session.init cls faults).run pre) requests).run moves = some m) :
    ∀ (i : Nat) (call : ScheduleCall) (f : Nat) (r : JobResult), m.race.calls[i]? = some call → call.pc = .returned (some f) →
      m.race.client.futures f = some r → r.name = call.name := by
  have h := Mixed.runRouted (Mixed.startRouted (Session.runLedger pre (Ledger.init cls faults)) requests) ran
  intro i call f r found returned done
  exact (h.held (some i) call f found (by rw [returned]; rfl)).2.1 r done

/-- On that run the first call's future is completed though `a` now maps to
the second's. -/
theorem lateSetCompletesReplaced :
    ∃ m, (Mixed.start ((Session.init .zmq []).run []) sameName).run sameNameRun = some m ∧
      m.race.client.results (.name "a") = some 1 ∧ m.race.client.futures 0 = some resultA1 ∧
      ∀ (i : Nat) (call : ScheduleCall) (f : Nat) (r : JobResult), m.race.calls[i]? = some call → call.pc = .returned (some f) →
        m.race.client.futures f = some r → r.name = call.name :=
  ⟨_,rfl,rfl,rfl,returnedFutureOwnResult .zmq [] [] sameName sameNameRun _ rfl⟩

/-- The statements of one turn of the loop, each taken if the loop is at it. -/
def Mixed.turn (m : Mixed) (received : Received) : Mixed :=
  let take (m : Mixed) (t : Mover) := (m.step t).getD m
  take (take (take m (.receive received)) .lookup) .set

/-- The statement-level loop and the turn of `Session` model one code: taken
with nothing between them, the receive, the lookup and the `set_result` of a
turn leave the client as the session's turn does, for every class, local and
receive; while the loop goes on they keep the same local `job_result`, and they
end the loop exactly when that turn stops the thread; the race's calls stay
where they were. -/
theorem gatherAlone (m : Mixed) (received : Received) (ready : m.gather = .receive) :
    (m.turn received).race = { m.race with
      client := (Session.step ⟨m.race.client,m.jobResult⟩ (.gather received)).client } ∧
    ((m.turn received).gather = .receive ∧
        (m.turn received).jobResult = (Session.step ⟨m.race.client,m.jobResult⟩ (.gather received)).jobResult ∨
      (m.turn received).gather = .ended ∧
        (Session.step ⟨m.race.client,m.jobResult⟩ (.gather received)).client.gatherer = .stopped) := by
  obtain ⟨r,jobResult,gather⟩ := m
  cases ready
  by_cases alive : r.client.gatherer.isAlive
  · simp only [Mixed.turn,Session.step,alive,if_true,gatherStepSplit]
    cases hr : receiveStep r.client.cls jobResult received with
    | error e => simp [Mixed.step,hr,alive,Mixed.ended]
    | ok p =>
      obtain ⟨jobResult',_ | res⟩ := p
      · simp [Mixed.step,hr,alive]
      · cases found : r.client.results res.name with
        | none => simp [Mixed.step,hr,alive,found,deliver]
        | some f =>
          cases pending : r.client.futures f <;>
            simp [Mixed.step,hr,alive,found,deliver,setResult,pending,Mixed.ended]
  · simp [Mixed.turn,Session.step,alive,Mixed.step]


/-- `connect()` and `schedule(f, name='a')` on a fresh ZMQ client, each run to
its return: the loop is started and `a` maps to the pending future 0. -/
def scheduledLoop : Mixed :=
  ((Mixed.start (Session.init .zmq []) (sameName.take 1)).run (sameNameRun.take 9)).getD
    (Mixed.start (Session.init .zmq []) [])

theorem scheduledTurnAlone :
    scheduledLoop.gather = .receive ∧ (scheduledLoop.turn (.result resultA1)).race.client.futures 0 = some resultA1 ∧
    (scheduledLoop.turn (.result resultA1)).race = { scheduledLoop.race with
      client := (Session.step ⟨scheduledLoop.race.client,scheduledLoop.jobResult⟩ (.gather (.result resultA1))).client } ∧
    ((scheduledLoop.turn (.result resultA1)).gather = .receive ∧
        (scheduledLoop.turn (.result resultA1)).jobResult =
          (Session.step ⟨scheduledLoop.race.client,scheduledLoop.jobResult⟩ (.gather (.result resultA1))).jobResult ∨
      (scheduledLoop.turn (.result resultA1)).gather = .ended ∧
        (Session.step ⟨scheduledLoop.race.client,scheduledLoop.jobResult⟩
          (.gather (.result resultA1))).client.gatherer = .stopped) :=
  ⟨rfl,rfl,gatherAlone scheduledLoop (.result resultA1) rfl⟩

end Tasq.Concurrent
