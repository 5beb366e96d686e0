import Tasq.Client.Session

/-! The results map and its futures over whole runs of a session. What a call
of the caller can do to them is said once (`Books`), and what a turn of the
gathering loop can do (`Completes`); every invariant below follows from those
two. A future is completed only with a result carrying the key it is held
under, so a future held under no key, or under the empty name, which no result
carries, is never completed, and `__exit__`'s wait on `pending_results()` does
not end. -/
namespace Tasq
open TasqClient Failure

/-- The bookkeeping of the results map that every reachable client keeps:
entries point below the future counter, the futures from the counter on are
pending, no two entries share a future, and a done future under an entry holds
a result carrying that entry's key. -/
structure Ledger (c : TasqClient) : Prop where
  below : ∀ k i, c.results k = some i → i < c.created
  fresh : ∀ i, c.created ≤ i → c.futures i = none
  injective : ∀ k k' i, c.results k = some i → c.results k' = some i → k = k'
  keyed : ∀ k i r, c.results k = some i → c.futures i = some r → r.name = k

/-- What a caller's call does to the results map and the futures: it draws
pending futures from the counter on and points one key at each; it removes no
entry, keeps the others, and leaves every older future as it was. -/
structure Books (c c' : TasqClient) : Prop where
  created : c.created ≤ c'.created
  entry : ∀ k j, c'.results k = some j → c.results k = some j ∨ (c.created ≤ j ∧ j < c'.created)
  once : ∀ k k' j, c'.results k = some j → c'.results k' = some j → c.created ≤ j → k = k'
  keeps : ∀ k, c.results k ≠ none → c'.results k ≠ none
  kept : ∀ j, j < c.created → c'.futures j = c.futures j
  drawn : ∀ j, c.created ≤ j → c'.futures j = none

variable {c c' c'' : TasqClient}

theorem Books.frame (h : Ledger c) (results : c'.results = c.results) (futures : c'.futures = c.futures)
    (created : c'.created = c.created) : Books c c' where
  created := created.ge
  entry k j found := .inl (results ▸ found)
  once k k' j found _ above := absurd (h.below k j (results ▸ found)) (by omega)
  keeps k held := results ▸ held
  kept j _ := futures ▸ rfl
  drawn j above := futures ▸ h.fresh j above

/-- `TasqFuture()` and `self._results[name] = future`. -/
theorem Books.stored (h : Ledger c) (name : JobKey)
    (results : c'.results = Function.update c.results name (some c.created))
    (futures : c'.futures = Function.update c.futures c.created none) (created : c'.created = c.created + 1) :
    Books c c' := by
  have named : ∀ {k j}, c'.results k = some j → c.created ≤ j → k = name := by
    intro k j found above
    by_contra other
    rw [results,Function.update_noteq other] at found
    have := h.below k j found
    omega
  refine ⟨by omega,fun k j found => ?_,fun k k' j found found' above => (named found above).trans (named found' above).symm,
    fun k held => ?_,fun j below => ?_,fun j above => ?_⟩
  · by_cases same : k = name
    · subst same
      rw [results,Function.update_same,Option.some.injEq] at found
      exact .inr ⟨by omega,by omega⟩
    · rw [results,Function.update_noteq same] at found
      exact .inl found
  · by_cases same : k = name
    · subst same; simp [results]
    · rwa [results,Function.update_noteq same]
  · rw [futures,Function.update_noteq (by omega)]
  · by_cases same : j = c.created
    · subst same; simp [futures]
    · rw [futures,Function.update_noteq same]; exact h.fresh j (by omega)

theorem Books.trans (ab : Books c c') (bc : Books c' c'') : Books c c'' where
  created := ab.created.trans bc.created
  entry k j found := by
    rcases bc.entry k j found with old | ⟨above,below⟩
    · rcases ab.entry k j old with older | ⟨above',below'⟩
      · exact .inl older
      · exact .inr ⟨above',by have := bc.created; omega⟩
    · exact .inr ⟨by have := ab.created; omega,below⟩
  once k k' j found found' above := by
    by_cases late : c'.created ≤ j
    · exact bc.once k k' j found found' late
    · have old : ∀ {k}, c''.results k = some j → c'.results k = some j := fun found =>
        (bc.entry _ j found).resolve_right fun h => late h.1
      exact ab.once k k' j (old found) (old found') above
  keeps k held := bc.keeps k (ab.keeps k held)
  kept j below := (bc.kept j (by have := ab.created; omega)).trans (ab.kept j below)
  drawn j above := by
    by_cases late : c'.created ≤ j
    · exact bc.drawn j late
    · rw [bc.kept j (by omega)]; exact ab.drawn j above

theorem Ledger.books (h : Ledger c) (b : Books c c') : Ledger c' where
  below k j found := by
    rcases b.entry k j found with old | ⟨-,below⟩
    · have := h.below k j old; have := b.created; omega
    · exact below
  fresh j above := b.drawn j (by have := b.created; omega)
  injective k k' j found found' := by
    rcases b.entry k j found with old | ⟨above,-⟩ <;> rcases b.entry k' j found' with old' | ⟨above',-⟩
    · exact h.injective k k' j old old'
    · have := h.below k j old; omega
    · have := h.below k' j old'; omega
    · exact b.once k k' j found found' above
  keyed k j r found done := by
    rcases b.entry k j found with old | ⟨above,-⟩
    · have below := h.below k j old
      rw [b.kept j below] at done
      exact h.keyed k j r old done
    · rw [b.drawn j above] at done; cases done

theorem scheduleBooks (name : Option JobKey) (uuid : Nat) (call : Call) (h : Ledger c) :
    Books c (after (schedule name uuid call c)) := by
  rcases scheduleCases (rfl : schedule name uuid call c = _) with ⟨-,same⟩ | ⟨-,-,same⟩ | ⟨-,-,same⟩ <;>
    rw [same]
  · exact .frame h rfl rfl rfl
  all_goals exact .stored h _ rfl rfl rfl

theorem replayBooks (jobs : List Job) {c : TasqClient} (h : Ledger c) : Books c (after (replay jobs c)) := by
  induction jobs generalizing c with
  | nil => exact .frame h rfl rfl rfl
  | cons job younger ih =>
    unfold replay
    dsimp only
    split_ifs
    · exact .stored h _ rfl rfl rfl
    · have first : Books c (({ c with pending := younger.reverse }.stored job.jobId).transmitted job) :=
        .stored h _ rfl rfl rfl
      exact first.trans (ih (h.books first))

theorem connectBooks (h : Ledger c) : Books c (after (TasqClient.connect c)) := by
  have frame := connectPreludeFrame c.cls c
  rcases connectWithCases (connectEq c).symm with ⟨-,same⟩ | ⟨-,c1,started,ran⟩ | ⟨-,e,c1,started,same⟩
  · rw [same]; exact .frame h rfl rfl rfl
  · rw [started,afterOk] at frame
    have first : Books c c1 := .frame h frame.results frame.futures frame.created
    rw [ran]
    exact first.trans (replayBooks _ (h.books first))
  · rw [started,afterError] at frame
    rw [same]
    exact .frame h frame.results frame.futures frame.created

theorem callBooks (op : Fifo.Op) (h : Ledger c) : Books c (after (op.call c)) := by
  cases op with
  | schedule name uuid call => rw [Fifo.Op.call,afterDiscard]; exact scheduleBooks name uuid call h
  | scheduleBlocking name uuid call =>
    rw [Fifo.Op.call,afterDiscard]
    rcases scheduleBlockingCases (rfl : scheduleBlocking name uuid call c = _) with ⟨-,same⟩ | ⟨-,same⟩ <;> rw [same]
    · exact .frame h rfl rfl rfl
    · exact scheduleBooks name uuid call h
  | connect => exact connectBooks h
  | disconnect => rw [Fifo.Op.call,disconnectEq]; exact .frame h rfl rfl rfl
  | close => rw [Fifo.Op.call,closeEq]; exact .frame h rfl rfl rfl

/-- What a gathering turn does to the results map and the futures: at most it
completes, with a result that `ok` admits, the pending future the map holds under
that result's name. -/
structure Completes (ok : JobResult → Prop) (c c' : TasqClient) : Prop where
  results : c'.results = c.results
  created : c'.created = c.created
  futures : c'.futures = c.futures ∨ ∃ r i, ok r ∧ c.results r.name = some i ∧ c.futures i = none ∧
    c'.futures = Function.update c.futures i (some r)

theorem deliverCompletes (r : JobResult) (c : TasqClient) : Completes (· = r) c (after (deliver r c)) := by
  unfold deliver setResult
  split
  · exact ⟨rfl,rfl,.inl rfl⟩
  · rename_i i found
    split
    · rename_i pending
      exact ⟨rfl,rfl,.inr ⟨r,i,rfl,found,pending,rfl⟩⟩
    · exact ⟨rfl,rfl,.inl rfl⟩

theorem Ledger.completes {ok : JobResult → Prop} (h : Ledger c) (t : Completes ok c c') : Ledger c' := by
  rcases t with ⟨results,created,same | ⟨r,i,-,found,pending,futures⟩⟩
  · exact ⟨results ▸ created ▸ h.below,created ▸ same ▸ h.fresh,results ▸ h.injective,results ▸ same ▸ h.keyed⟩
  · have below := h.below _ i found
    refine ⟨results ▸ created ▸ h.below,fun j above => ?_,results ▸ h.injective,fun k j r' found' done => ?_⟩
    · rw [futures,Function.update_noteq (by rw [created] at above; omega)]
      exact h.fresh j (by rwa [created] at above)
    · rw [results] at found'
      by_cases same : j = i
      · subst same
        rw [futures,Function.update_same,Option.some.injEq] at done
        subst done
        exact h.injective _ _ _ found found'
      · rw [futures,Function.update_noteq same] at done
        exact h.keyed k j r' found' done

theorem Completes.weaken {ok ok' : JobResult → Prop} (t : Completes ok c c') (imp : ∀ r, ok r → ok' r) :
    Completes ok' c c' :=
  ⟨t.results,t.created,t.futures.imp_right fun ⟨r,i,admitted,rest⟩ => ⟨r,i,imp r admitted,rest⟩⟩

theorem gatherStepCompletes (cls : ClientClass) (jobResult : Local) (received : Received) (c : TasqClient) :
    Completes (fun r => received = .result r ∨ jobResult = some (some r)) c
      (after (gatherStep cls jobResult received c)) := by
  rcases gatherStepDelivers cls jobResult received c with same | ⟨r,source,same⟩ <;> rw [same]
  · exact ⟨rfl,rfl,.inl rfl⟩
  · exact (deliverCompletes r c).weaken fun _ named => named ▸ source

theorem Ledger.init (cls : ClientClass) (faults : List Bool) : Ledger (TasqClient.init cls faults) :=
  ⟨fun _ _ h => (nomatch h),fun _ _ => rfl,fun _ _ _ h => (nomatch h),fun _ _ _ h => (nomatch h)⟩

/-- Every event of a session: a call keeps the books and the loop's local; a
turn completes at most a future, with the result it received or the one its
local held, and keeps one of those, or none, as its local. -/
theorem Session.stepSpec (s : Session) (e : Event) (h : Ledger s.client) :
    (Books s.client (s.step e).client ∧ (s.step e).jobResult = s.jobResult) ∨
    ∃ received, e = .gather received ∧
      Completes (fun r => received = .result r ∨ s.jobResult = some (some r)) s.client (s.step e).client ∧
      ∀ r, (s.step e).jobResult = some (some r) → received = .result r ∨ s.jobResult = some (some r) := by
  cases e with
  | call op => exact .inl ⟨callBooks op h,rfl⟩
  | gather received =>
    refine .inr ⟨received,rfl,?_⟩
    have turn := gatherStepCompletes s.client.cls s.jobResult received s.client
    simp only [Session.step]
    split_ifs
    · revert turn
      cases stepped : gatherStep s.client.cls s.jobResult received s.client with
      | ok jobResult c => exact fun turn => ⟨turn,fun r held => gatherStepLocal stepped held⟩
      | error e c => exact fun turn => ⟨⟨turn.results,turn.created,turn.futures⟩,fun r held => .inr held⟩
    · exact ⟨⟨rfl,rfl,.inl rfl⟩,fun r held => .inr held⟩

theorem Session.runLedger (events : List Event) {s : Session} (h : Ledger s.client) : Ledger (s.run events).client := by
  induction events generalizing s with
  | nil => exact h
  | cons e es ih =>
    apply ih
    rcases s.stepSpec e h with ⟨books,-⟩ | ⟨_,_,turn,-⟩
    · exact h.books books
    · exact h.completes turn

theorem Session.runAppend (s : Session) (first second : List Event) :
    s.run (first ++ second) = (s.run first).run second := by
  induction first generalizing s with
  | nil => rfl
  | cons e es ih => exact ih (s.step e)

/-- Results reach only their own futures. In every run of a fresh client of any
class, over any broker and any interleaving of the caller's calls, returning or
raising, with turns of the gathering loop receiving anything (results for
unknown names, a second result for a name, failures), and whether or not the
thread ends: a done future held in the results map holds a result carrying that
entry's key, and no two entries share a future. -/
theorem futuresHoldOwnResults (cls : ClientClass) (faults : List Bool) (events : List Event) :
    (∀ k i r, ((Session.init cls faults).run events).client.results k = some i →
      ((Session.init cls faults).run events).client.futures i = some r → r.name = k) ∧
    (∀ k k' i, ((Session.init cls faults).run events).client.results k = some i →
      ((Session.init cls faults).run events).client.results k' = some i → k = k') :=
  have h := Session.runLedger events (Ledger.init cls faults)
  ⟨h.keyed,h.injective⟩

/-- `BaseTasqClient.__exit__` leaves its loop `while self.pending_results(): pass`
at a state whose `pending_results()` is empty, and then calls `close()`. -/
def exitWaitEnds (c : TasqClient) : Prop := ∀ k, pendingResults c k = none

theorem pendingResultsSome {c : TasqClient} {k : JobKey} :
    (pendingResults c k).isSome ↔ ∃ i, c.results k = some i ∧ c.futures i = none := by
  unfold pendingResults
  cases c.results k with
  | none => simp
  | some i => simp [Option.filter_some]

/-- A `schedule` without a name on a connected client, returning or raising,
leaves a pending future under the empty name. -/
theorem scheduleUnnamedPending (uuid : Nat) (call : Call) {c : TasqClient} (online : c.isConnected = true) :
    (pendingResults (after (schedule none uuid call c)) JobKey.unnamed).isSome := by
  rcases scheduleCases (rfl : schedule none uuid call c = _) with ⟨off,-⟩ | ⟨-,-,same⟩ | ⟨-,-,same⟩
  · rw [online] at off; cases off
  all_goals
    rw [same]
    exact pendingResultsSome.2 ⟨c.created,by simp [stored,transmitted,faulted]⟩

/-- Over turns whose received results carry job ids, never the empty name, a
pending future under the empty name stays pending, and the loop's local holds no
result under the empty name. -/
theorem Session.runUnnamed (events : List Event) {s : Session} (h : Ledger s.client)
    (stale : ∀ r, s.jobResult = some (some r) → r.name ≠ JobKey.unnamed)
    (ids : ∀ r, Event.gather (.result r) ∈ events → r.name ≠ JobKey.unnamed) :
    (∀ r, (s.run events).jobResult = some (some r) → r.name ≠ JobKey.unnamed) ∧
    ((pendingResults s.client JobKey.unnamed).isSome →
      (pendingResults (s.run events).client JobKey.unnamed).isSome) := by
  induction events generalizing s with
  | nil => exact ⟨stale,id⟩
  | cons e es ih =>
    have later : ∀ r, Event.gather (.result r) ∈ es → r.name ≠ JobKey.unnamed :=
      fun r mem => ids r (List.mem_cons_of_mem _ mem)
    rcases s.stepSpec e h with ⟨books,same⟩ | ⟨received,rfl,turn,held⟩
    · obtain ⟨stale',keep⟩ := ih (h.books books) (same ▸ stale) later
      refine ⟨stale',fun pending => keep ?_⟩
      obtain ⟨i,found,empty⟩ := pendingResultsSome.1 pending
      obtain ⟨j,found'⟩ := Option.ne_none_iff_exists'.mp (books.keeps _ (by rw [found]; simp))
      refine pendingResultsSome.2 ⟨j,found',?_⟩
      rcases books.entry _ j found' with old | ⟨above,-⟩
      · rw [found] at old
        cases old
        rw [books.kept i (h.below _ i found)]
        exact empty
      · exact books.drawn j above
    · have named : ∀ r, received = .result r ∨ s.jobResult = some (some r) → r.name ≠ JobKey.unnamed := by
        rintro r (rfl | held)
        · exact ids r (List.mem_cons_self _ _)
        · exact stale r held
      obtain ⟨stale',keep⟩ := ih (h.completes turn) (fun r now => named r (held r now)) later
      refine ⟨stale',fun pending => keep ?_⟩
      obtain ⟨i,found,empty⟩ := pendingResultsSome.1 pending
      refine pendingResultsSome.2 ⟨i,by rw [turn.results]; exact found,?_⟩
      rcases turn.futures with same | ⟨r,j,admitted,found',-,futures⟩
      · rw [same]; exact empty
      · have other : i ≠ j := fun same => named r admitted (h.injective _ _ _ found' (same ▸ found))
        rw [futures,Function.update_noteq other]
        exact empty

/-- A `with` block that schedules a job without a name never exits. A connected
`schedule` stores its future under the raw name keyword, the empty name, while
the job goes out under its generated id, and every result carries its job's id.
So after a `schedule` without a name on a connected client, returning or
raising, whatever follows (any calls, any turns, whether the gathering thread
lives), `pending_results()` keeps the empty name's entry, and the loop of
`__exit__` never ends. -/
theorem unnamedScheduleNeverSettles (cls : ClientClass) (faults : List Bool) (pre events : List Event)
    (uuid : Nat) (call : Call)
    (online : ((Session.init cls faults).run pre).client.isConnected = true)
    (ids : ∀ r, Event.gather (.result r) ∈ pre ++ events → r.name ≠ JobKey.unnamed) :
    (pendingResults ((Session.init cls faults).run (pre ++ .call (.schedule none uuid call) :: events)).client
      JobKey.unnamed).isSome ∧
    ¬ exitWaitEnds ((Session.init cls faults).run (pre ++ .call (.schedule none uuid call) :: events)).client := by
  let s := (Session.init cls faults).run pre
  have ledger : Ledger s.client := Session.runLedger pre (Ledger.init cls faults)
  obtain ⟨stale,-⟩ := @Session.runUnnamed pre (Session.init cls faults) (Ledger.init cls faults) (fun r held => (nomatch held))
    (fun r mem => ids r (List.mem_append_left _ mem))
  have stored : (pendingResults (s.step (.call (.schedule none uuid call))).client JobKey.unnamed).isSome := by
    show (pendingResults (after (discard (schedule none uuid call) s.client)) JobKey.unnamed).isSome
    rw [afterDiscard]
    exact scheduleUnnamedPending uuid call online
  have pending := (@Session.runUnnamed events (s.step (.call (.schedule none uuid call)))
    (ledger.books (callBooks _ ledger)) stale (fun r mem => ids r (List.mem_append_right _ mem))).2 stored
  rw [Session.runAppend]
  exact ⟨pending,fun ends => Option.isSome_iff_ne_none.mp pending (ends JobKey.unnamed)⟩

/-- The result of the job a `schedule(f)` without a name sends under the id 7. -/
def resultSeven : JobResult := ⟨.uuid 7,.success,some "1",none,0⟩

/-- A fresh ZMQ client: `connect()`, `schedule(f)` with no name, whose id is drawn
as 7, and then that job's result arriving. -/
theorem unnamedJobKeepsExitWaiting :
    ((Session.init .zmq []).run [.call .connect]).client.isConnected = true ∧
    (∀ r, Event.gather (.result r) ∈ [.call .connect] ++ [.gather (.result resultSeven)] →
      r.name ≠ JobKey.unnamed) ∧
    ((pendingResults ((Session.init .zmq []).run
      ([.call .connect] ++ .call (.schedule none 7 ⟨"f",[],[]⟩) :: [.gather (.result resultSeven)])).client
        JobKey.unnamed).isSome ∧
    ¬ exitWaitEnds ((Session.init .zmq []).run
      ([.call .connect] ++ .call (.schedule none 7 ⟨"f",[],[]⟩) :: [.gather (.result resultSeven)])).client) := by
  have online : ((Session.init .zmq []).run [.call .connect]).client.isConnected = true := by
    show (connectedClient .zmq).isConnected = true
    rw [connectedClientEq]
  have ids : ∀ r, Event.gather (.result r) ∈ [.call .connect] ++ [.gather (.result resultSeven)] →
      r.name ≠ JobKey.unnamed := by
    intro r mem
    simp at mem
    subst mem
    decide
  exact ⟨online,ids,unnamedScheduleNeverSettles .zmq [] [.call .connect] [.gather (.result resultSeven)] 7
    ⟨"f",[],[]⟩ online ids⟩

/-- A pending future that the results map holds under no key stays pending and
out of the map in every later state: calls draw new futures above it, and a turn
completes only a future the map holds. -/
theorem Session.runOrphan (events : List Event) {s : Session} (h : Ledger s.client) {i : Nat}
    (allocated : i < s.client.created) (pending : s.client.futures i = none)
    (out : ∀ k, s.client.results k ≠ some i) :
    i < (s.run events).client.created ∧ (s.run events).client.futures i = none ∧
      ∀ k, (s.run events).client.results k ≠ some i := by
  induction events generalizing s with
  | nil => exact ⟨allocated,pending,out⟩
  | cons e es ih =>
    rcases s.stepSpec e h with ⟨books,-⟩ | ⟨_,_,turn,-⟩
    · refine ih (h.books books) (by have := books.created; omega) (by rw [books.kept i allocated]; exact pending)
        fun k found => ?_
      rcases books.entry k i found with old | ⟨above,-⟩
      · exact out k old
      · omega
    · refine ih (h.completes turn) (by rw [turn.created]; exact allocated) ?_ fun k => by rw [turn.results]; exact out k
      rcases turn.futures with same | ⟨r,j,-,found,-,futures⟩
      · rw [same]; exact pending
      · rw [futures,Function.update_noteq fun same => out _ (same ▸ found)]
        exact pending

/-- A connected `schedule` under a name, returning or raising, points the name at
a new future, so the future the name held is then held under no key. -/
theorem scheduleReplacesFuture {c : TasqClient} (h : Ledger c) (name : JobKey) (uuid : Nat) (call : Call)
    (online : c.isConnected = true) {i : Nat} (held : c.results name = some i) :
    ∀ k, (after (schedule (some name) uuid call c)).results k ≠ some i := by
  have below := h.below _ _ held
  rcases scheduleCases (rfl : schedule (some name) uuid call c = _) with ⟨off,-⟩ | ⟨-,-,same⟩ | ⟨-,-,same⟩
  · rw [online] at off; cases off
  all_goals
    rw [same]
    intro k found
    by_cases other : k = name
    · subst other
      simp [stored,transmitted,faulted] at found
      omega
    · simp [stored,transmitted,faulted,Function.update_noteq other] at found
      exact other (h.injective _ _ _ found held)

/-- The results the broker sends back for two jobs named `a`. -/
def resultA1 : JobResult := ⟨.name "a",.success,some "1",none,0⟩

def resultA2 : JobResult := ⟨.name "a",.success,some "2",none,0⟩

end Tasq
