import Tasq.Client.Ops

/-! `TasqClientPool.map` over the pool's list of clients. The router, the actor
system and the pool's results map are not used by `map`; the router and the
actor system are not among the sources. -/
namespace Tasq.Pool
open TasqClient

/-- One `(args, kwargs)` pair of `map`'s iterable: `name` is the `name` keyword
among the kwargs, and `uuid` what `uuid4()` gives the job if it needs an id. -/
structure Item where
  args : List String
  name : Option JobKey
  kwargs : List (String × String)
  uuid : Nat
  deriving DecidableEq, Repr

/-- What `map` can raise: `IndexError` from `self._clients[idx]`, or what a
client method raised. -/
inductive PoolError where
  | indexError
  | client (e : ClientError)
  deriving DecidableEq, Repr

/-- The `for args, kwargs in iterable:` loop of `map` with its local `idx`;
`idx == len(self._clients) - 1` is `idx + 1 = clients.length` on naturals. -/
def mapLoop (func : String) : Nat → List Item → EStateM PoolError (List TasqClient) Unit
  | _, [] => pure ()
  | idx, item :: rest => fun clients =>
    let idx := if idx + 1 = clients.length then 0 else idx
    match clients[idx]? with
    | none => .error .indexError clients
    | some client =>
      let ready : Outcome Unit := if !client.isConnected then TasqClient.connect client else .ok () client
      match ready with
      | .error e c => .error (.client e) (clients.set idx c)
      | .ok () c =>
        match schedule item.name item.uuid ⟨func,item.args,item.kwargs⟩ c with
        | .error e c' => .error (.client e) (clients.set idx c')
        | .ok _ c' => mapLoop func idx rest (clients.set idx c')

/-- `TasqClientPool.map(func, iterable)` -/
def map (func : String) (iterable : List Item) : EStateM PoolError (List TasqClient) Unit :=
  mapLoop func 0 iterable

/-- The job `map` builds for one pair. -/
def Item.job (func : String) (item : Item) : Job :=
  Job.new (item.name.getD JobKey.unnamed) item.uuid ⟨func,item.args,item.kwargs⟩

/-- Over a connected first client whose broker never raises, `map` sends every
job to the first client, in iterable order. -/
theorem mapSendsAllToFirst (func : String) (iterable : List Item) (c : TasqClient) (rest : List TasqClient)
    (online : c.isConnected = true) (fine : c.faults = []) :
    ∃ c', map func iterable (c :: rest) = .ok () (c' :: rest) ∧
      c'.sent = c.sent ++ iterable.map (Item.job func) := by
  unfold map
  induction iterable generalizing c with
  | nil => exact ⟨c,rfl,by simp⟩
  | cons item later ih =>
    let c1 := (c.stored (item.name.getD JobKey.unnamed)).transmitted (item.job func)
    have scheduled : schedule item.name item.uuid ⟨func,item.args,item.kwargs⟩ c = .ok (some c.created) c1 := by
      rcases scheduleCases (rfl : schedule item.name item.uuid ⟨func,item.args,item.kwargs⟩ c = _) with
        ⟨off,-⟩ | ⟨-,-,same⟩ | ⟨-,bad,-⟩
      · simp_all
      · exact same
      · simp [fine] at bad
    obtain ⟨c',ran,sent⟩ := ih c1 online (by simp [c1,transmitted,fine])
    refine ⟨c',?_,by simp [sent,c1,transmitted]⟩
    have zero : (if 0 + 1 = (c :: rest).length then 0 else 0) = 0 := by split <;> rfl
    simp only [mapLoop,zero,List.getElem?_cons_zero,online,Bool.not_true,Bool.false_eq_true,if_false,
      scheduled,List.set_cons_zero]
    exact ran

/-- `map` never moves its index off the first client: a `map` that returns has
left every other client as it was. -/
theorem mapOnlyFirstClient (func : String) (iterable : List Item) (clients clients' : List TasqClient)
    (h : map func iterable clients = .ok () clients') :
    clients'.length = clients.length ∧ ∀ i, 0 < i → clients'[i]? = clients[i]? := by
  unfold map at h
  induction iterable generalizing clients with
  | nil => cases h; exact ⟨rfl,fun _ _ => rfl⟩
  | cons item rest ih =>
    simp only [mapLoop] at h
    have zero : (if 0 + 1 = clients.length then 0 else 0) = 0 := by split <;> rfl
    simp only [zero] at h
    split at h
    · cases h
    · split at h
      · cases h
      · split at h
        · cases h
        · obtain ⟨length,others⟩ := ih _ h
          exact ⟨by simp [length],fun i pos => by
            rw [others i pos,List.getElem?_set_ne (by omega)]⟩

/-- Two pairs over two connected ZMQ clients: the second client is left as it was. -/
theorem mapLeavesSecondClient :
    ∃ clients', map "f" [⟨["1"],none,[],1⟩,⟨["2"],none,[],2⟩] [connectedClient .zmq,connectedClient .zmq] =
      .ok () clients' ∧ clients'.length = 2 ∧
      ∀ i, 0 < i → clients'[i]? = [connectedClient .zmq,connectedClient .zmq][i]? := by
  obtain ⟨c',ran,-⟩ := mapSendsAllToFirst "f" [⟨["1"],none,[],1⟩,⟨["2"],none,[],2⟩] (connectedClient .zmq)
    [connectedClient .zmq] (by rw [connectedClientEq]) (by rw [connectedClientEq]; rfl)
  exact ⟨_,ran,mapOnlyFirstClient _ _ _ _ ran⟩

end Tasq.Pool

namespace Tasq.Pool
open TasqClient

/-- Two connected ZMQ clients and two pairs. -/
def twoItems : List Item := [⟨["1"],none,[],1⟩,⟨["2"],none,[],2⟩]

/-- Round-robin, refuted: with two clients, `map` sends both jobs to the first
client and none to the second, where round-robin sends the second pair to
client 1. -/
theorem mapSecondPairOnFirstClient :
    ∃ first second, map "f" twoItems [connectedClient .zmq,connectedClient .zmq] = .ok () [first,second] ∧
      first.sent.map Job.jobId = [.uuid 1,.uuid 2] ∧ second.sent = [] := by
  obtain ⟨c',ran,sent⟩ := mapSendsAllToFirst "f" twoItems (connectedClient .zmq) [connectedClient .zmq]
    (by rw [connectedClientEq]) (by rw [connectedClientEq]; rfl)
  refine ⟨c',connectedClient .zmq,ran,?_,by rw [connectedClientEq]; rfl⟩
  rw [sent,connectedClientEq]
  rfl

end Tasq.Pool
