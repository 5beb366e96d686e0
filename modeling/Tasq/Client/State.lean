import Tasq.Job
import Mathlib.Logic.Function.Basic
import Mathlib.Data.List.Basic

/-! The state one client object keeps, shared by the three client classes, and
the primitive effects its methods are built from. The broker connection is the
external collaborator of the spec: it records what `send` transmitted, and an
environment list decides which of its calls raise. Socket lifecycle, logging
and serialization are not modelled. -/
namespace Tasq

/- Python's `collections.deque` operations the client uses, leftmost first. -/
namespace Deque

def appendleft {α : Type} (d : List α) (x : α) : List α := x :: d

/-- `deque.pop()` removes the rightmost element. -/
def pop {α : Type} (d : List α) : Option (α × List α) :=
  match d.reverse with
  | [] => none
  | x :: rest => some (x,rest.reverse)

@[simp] theorem appendleftReverse {α : Type} (d : List α) (x : α) :
    (appendleft d x).reverse = d.reverse ++ [x] := by
  simp [appendleft]

theorem popSome {α : Type} {d rest : List α} {x : α} (h : pop d = some (x,rest)) :
    d.reverse = x :: rest.reverse := by
  unfold pop at h
  split at h
  · cases h
  · rename_i y r same
    cases h
    simpa using same

theorem popNone {α : Type} {d : List α} : pop d = none ↔ d = [] := by
  unfold pop
  split
  · rename_i empty
    simpa using empty
  · rename_i x rest same
    simp only [reduceCtorEq,false_iff]
    rintro rfl
    cases same

theorem popLength {α : Type} {d rest : List α} {x : α} (h : pop d = some (x,rest)) :
    rest.length < d.length := by
  have same := congrArg List.length (popSome h)
  simp only [List.length_reverse,List.length_cons] at same
  omega

end Deque

/-- The three client classes of `tasq.remote.client`. -/
inductive ClientClass where
  | zmq
  | redis
  | rabbitmq
  deriving DecidableEq, Repr

/-- `threading.Thread` as `start` and `is_alive` see it. -/
inductive ThreadState where
  | initial
  | alive
  | stopped
  deriving DecidableEq, Repr

def ThreadState.isAlive : ThreadState → Bool
  | .alive => true
  | _ => false

/-- The exceptions a client method can raise. -/
inductive ClientError where
  /-- `TasqClientNotConnected` -/
  | notConnected
  /-- `RuntimeError`: threads can only be started once. -/
  | threadStarted
  /-- The broker connection's `connect` raised. -/
  | connectFailed
  /-- The broker connection's `send` raised. -/
  | sendFailed
  /-- `IndexError`: `pop` from an empty deque. -/
  | emptyDeque
  deriving DecidableEq, Repr

/-- One client object. `results` maps a name to the future stored under it;
`futures` holds the state of every `TasqFuture` created, by creation order, so
that a future replaced in the map keeps its identity. -/
structure TasqClient where
  cls : ClientClass
  isConnected : Bool
  pending : List Job
  results : JobKey → Option Nat
  futures : Nat → FutureState
  created : Nat
  gatherer : ThreadState
  sent : List Job
  faults : List Bool

/-- A freshly constructed client of class `cls`, over a broker whose calls
raise as `faults` says. -/
def TasqClient.init (cls : ClientClass) (faults : List Bool) : TasqClient :=
  ⟨cls,false,[],fun _ => none,fun _ => none,0,.initial,[],faults⟩

/-- A client method: it returns a value or raises, and in both cases leaves the
client as it mutated it so far, as a Python method does. -/
abbrev Method (α : Type) := EStateM ClientError TasqClient α

abbrev Outcome (α : Type) := EStateM.Result ClientError TasqClient α

/- How a method's statements act on the client, for `simp`. -/
section Plumbing
variable {ε α β : Type}

@[simp] theorem bindApply (x : EStateM ε TasqClient α) (f : α → EStateM ε TasqClient β) (c : TasqClient) :
    (x >>= f) c = match x c with
      | .ok a c' => f a c'
      | .error e c' => .error e c' := by
  show EStateM.bind x f c = _
  unfold EStateM.bind
  cases x c <;> rfl

@[simp] theorem mapApply (f : α → β) (x : EStateM ε TasqClient α) (c : TasqClient) :
    (f <$> x) c = match x c with
      | .ok a c' => .ok (f a) c'
      | .error e c' => .error e c' := by
  show EStateM.map f x c = _
  unfold EStateM.map
  cases x c <;> rfl

@[simp] theorem pureApply (a : α) (c : TasqClient) : (pure a : EStateM ε TasqClient α) c = .ok a c := rfl

@[simp] theorem getApply (c : TasqClient) : (get : EStateM ε TasqClient TasqClient) c = .ok c c := rfl

@[simp] theorem modifyApply (f : TasqClient → TasqClient) (c : TasqClient) :
    (modify f : EStateM ε TasqClient Unit) c = .ok () (f c) := rfl

@[simp] theorem throwApply (e : ε) (c : TasqClient) : (throw e : EStateM ε TasqClient α) c = .error e c := rfl

end Plumbing

namespace TasqClient

/-- A call on the broker connection: the next fault decides whether it raises. -/
def brokerCall (e : ClientError) (effect : TasqClient → TasqClient) : Method Unit := fun c =>
  let rest := { c with faults := c.faults.tail }
  if c.faults.head? = some true then .error e rest else .ok () (effect rest)

/-- `self._client.send(job)` -/
def send (job : Job) : Method Unit :=
  brokerCall .sendFailed fun c => { c with sent := c.sent ++ [job] }

/-- `self._client.connect()` -/
def brokerConnect : Method Unit := brokerCall .connectFailed id

/-- `self._gatherer.start()` -/
def startGatherer : Method Unit := fun c =>
  match c.gatherer with
  | .initial => .ok () { c with gatherer := .alive }
  | _ => .error .threadStarted c

/-- `TasqFuture()`: a new, empty future. -/
def newFuture : Method Nat := fun c =>
  .ok c.created { c with futures := Function.update c.futures c.created none, created := c.created + 1 }

/-- `self._results[name] = future` -/
def store (name : JobKey) (future : Nat) : Method Unit := fun c =>
  .ok () { c with results := Function.update c.results name (some future) }

theorem brokerCallCases {e effect c r} (h : brokerCall e effect c = r) :
    (c.faults.head? = some true ∧ r = .error e { c with faults := c.faults.tail }) ∨
    (c.faults.head? ≠ some true ∧ r = .ok () (effect { c with faults := c.faults.tail })) := by
  unfold brokerCall at h
  split at h
  · exact .inl ⟨by assumption,h.symm⟩
  · exact .inr ⟨by assumption,h.symm⟩

end TasqClient
end Tasq
