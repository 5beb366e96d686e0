import Mathlib.Data.List.Infix

/-! `tasq.actor.Actor`: a mailbox queue, a `terminated` event, and a thread
that runs `_bootstrap`. Senders' `send` and `close` calls and the actor
thread's steps interleave in any order. The actor's `run` is the loop the
claims speak of, calling `recv()` and handling each message; the model records
who sent each message, which the Python queue does not, so that per-sender
order can be stated. `start` is called once. -/
namespace Tasq

/-- An item of the mailbox: a message with its sender, or the `ActorExit`
class that `close` puts. -/
inductive Mail (α : Type) where
  | msg (sender : Nat) (body : α)
  | exit
  deriving DecidableEq, Repr

/-- How `run()` ended. -/
inductive Ending (α : Type) where
  /-- `recv()` took the sentinel and raised `ActorExit`, which `_bootstrap` catches. -/
  | sentinel
  | returned
  | raised
  /-- Handling the message `body` from `sender` raised. -/
  | failed (sender : Nat) (body : α)
  deriving DecidableEq, Repr

/-- Where the actor thread is: not started, in `run()`, past `run()` with the
`finally` of `_bootstrap` still to run, or finished. -/
inductive Phase (α : Type) where
  | idle
  | running
  | ended (how : Ending α)
  | done (how : Ending α)
  deriving DecidableEq, Repr

structure Actor (α : Type) where
  mailbox : List (Mail α)
  terminated : Bool
  phase : Phase α
  /-- The messages `run()` has handled, in order. -/
  handled : List (Nat × α)
  deriving DecidableEq, Repr

/-- `Actor()` -/
def Actor.new (α : Type) : Actor α := ⟨[],false,.idle,[]⟩

/-- A step of some thread: a sender's `send(msg)` or `close()`, the caller's
`start()`, one turn of the actor's `run()` loop, the end of `run()` by return
or raise, the `finally` of `_bootstrap`, or a `join()` returning. -/
inductive ActorEvent (α : Type) where
  | send (sender : Nat) (body : α)
  | close (sender : Nat)
  | start
  | receive
  | fail
  | stop (raised : Bool)
  | finish
  | join
  deriving DecidableEq, Repr

def toMail {α : Type} (m : Nat × α) : Mail α := .msg m.1 m.2

/-- `self._mailbox.put(item)`: `send` puts a message, `close` the sentinel. -/
def Actor.put {α : Type} (a : Actor α) (item : Mail α) : Actor α := { a with mailbox := a.mailbox ++ [item] }

/-- The step a thread takes, when it can: `recv()` blocks on an empty mailbox,
and `join()` until `terminated` is set. -/
def Actor.step {α : Type} (a : Actor α) : ActorEvent α → Option (Actor α)
  | .send sender body => some (a.put (.msg sender body))
  | .close _ => some (a.put .exit)
  | .start =>
    match a.phase with
    | .idle => some { a with phase := .running }
    | _ => none
  | .receive =>
    match a.phase, a.mailbox with
    | .running, .msg sender body :: rest => some { a with mailbox := rest, handled := a.handled ++ [(sender,body)] }
    | .running, .exit :: rest => some { a with mailbox := rest, phase := .ended .sentinel }
    | _, _ => none
  | .fail =>
    match a.phase, a.mailbox with
    | .running, .msg sender body :: rest => some { a with mailbox := rest, phase := .ended (.failed sender body) }
    | _, _ => none
  | .stop raised =>
    match a.phase with
    | .running => some { a with phase := .ended (if raised then .raised else .returned) }
    | _ => none
  | .finish =>
    match a.phase with
    | .ended how => some { a with phase := .done how, terminated := true }
    | _ => none
  | .join => if a.terminated then some a else none

/-- A run of steps, each taken when it can be. -/
def Actor.run {α : Type} : Actor α → List (ActorEvent α) → Option (Actor α)
  | a, [] => some a
  | a, e :: es => (a.step e).bind fun a' => Actor.run a' es

/-- Everything ever put into the mailbox, in order. -/
def putLog {α : Type} : List (ActorEvent α) → List (Mail α)
  | [] => []
  | .send sender body :: es => .msg sender body :: putLog es
  | .close _ :: es => .exit :: putLog es
  | _ :: es => putLog es

/-- The messages ahead of the first sentinel. -/
def beforeExit {α : Type} : List (Mail α) → List (Nat × α)
  | [] => []
  | .exit :: _ => []
  | .msg sender body :: rest => (sender,body) :: beforeExit rest

/-- The bodies `sender` sent, in its order. -/
def sentBy {α : Type} (sender : Nat) : List (ActorEvent α) → List α
  | [] => []
  | .send i body :: es => if i = sender then body :: sentBy sender es else sentBy sender es
  | _ :: es => sentBy sender es

/-- The items `recv()` has taken, by the phase: the handled messages, then the
sentinel or the message whose handling raised. -/
def Phase.taken {α : Type} : Phase α → List (Mail α)
  | .ended .sentinel | .done .sentinel => [.exit]
  | .ended (.failed sender body) | .done (.failed sender body) => [.msg sender body]
  | _ => []

/-- The invariant: the mailbox is what was put and not yet taken, and the
`terminated` event is set exactly in the final phase. -/
structure Inv {α : Type} (a : Actor α) (log : List (Mail α)) : Prop where
  fifo : a.handled.map toMail ++ a.phase.taken ++ a.mailbox = log
  terminated : a.terminated = true ↔ ∃ how, a.phase = .done how

end Tasq

namespace Tasq

/-- The items one event puts into the mailbox. -/
theorem putLogCons {α : Type} (e : ActorEvent α) (es : List (ActorEvent α)) :
    putLog (e :: es) = putLog [e] ++ putLog es := by
  cases e <;> rfl

theorem Inv.step {α : Type} {a a' : Actor α} {log e} (inv : Inv a log) (h : a.step e = some a') :
    Inv a' (log ++ putLog [e]) := by
  obtain ⟨fifo,terminated⟩ := inv
  cases e with
  | send sender body =>
    cases h; exact ⟨by simp [Actor.put,putLog,← fifo],terminated⟩
  | close sender =>
    cases h; exact ⟨by simp [Actor.put,putLog,← fifo],terminated⟩
  | start =>
    simp only [Actor.step] at h
    split at h <;> cases h
    rename_i idle
    exact ⟨by simpa [putLog,Phase.taken,idle] using fifo,by simp_all⟩
  | receive =>
    simp only [Actor.step] at h
    split at h <;> cases h <;> rename_i running mailbox
    · exact ⟨by simp [putLog,Phase.taken,toMail,← fifo,running,mailbox],by simp_all⟩
    · exact ⟨by simp [putLog,Phase.taken,← fifo,running,mailbox],by simp_all⟩
  | fail =>
    simp only [Actor.step] at h
    split at h <;> cases h
    rename_i running mailbox
    exact ⟨by simp [putLog,Phase.taken,← fifo,running,mailbox],by simp_all⟩
  | stop raised =>
    simp only [Actor.step] at h
    split at h <;> cases h
    rename_i running
    exact ⟨by cases raised <;> simp [putLog,Phase.taken,← fifo,running],by simp_all⟩
  | finish =>
    simp only [Actor.step] at h
    split at h <;> cases h
    rename_i how ended
    refine ⟨?_,by simp⟩
    rw [← fifo,ended]
    cases how <;> simp [putLog,Phase.taken]
  | join =>
    simp only [Actor.step] at h
    split at h <;> cases h
    exact ⟨by simpa [putLog] using fifo,terminated⟩

theorem Inv.run {α : Type} {a a' : Actor α} {log events} (inv : Inv a log) (h : a.run events = some a') :
    Inv a' (log ++ putLog events) := by
  induction events generalizing a log with
  | nil => cases h; simpa [putLog] using inv
  | cons e es ih =>
    simp only [Actor.run,Option.bind_eq_some] at h
    obtain ⟨a1,stepped,rest⟩ := h
    have next := ih (inv.step stepped) rest
    rwa [List.append_assoc,← putLogCons] at next

theorem beforeExitMsgs {α : Type} (handled : List (Nat × α)) (rest : List (Mail α)) :
    beforeExit (handled.map toMail ++ rest) = handled ++ beforeExit rest := by
  induction handled with
  | nil => rfl
  | cons m handled ih => simp [toMail,beforeExit,ih]

theorem Inv.handledPrefix {α : Type} {a : Actor α} {log} (inv : Inv a log) :
    ∃ k, a.handled = (beforeExit log).take k := by
  refine ⟨a.handled.length,?_⟩
  rw [← inv.fifo,List.append_assoc,beforeExitMsgs,List.take_left]

theorem Inv.handledAll {α : Type} {a : Actor α} {log} (inv : Inv a log)
    (sentinel : a.phase = .ended .sentinel ∨ a.phase = .done .sentinel) : a.handled = beforeExit log := by
  rw [← inv.fifo,List.append_assoc,beforeExitMsgs]
  rcases sentinel with same | same <;> simp [same,Phase.taken,beforeExit]

end Tasq

namespace Tasq

/-- `body` if the message came from `sender`. -/
def fromSender {α : Type} (sender : Nat) (m : Nat × α) : Option α := if m.1 = sender then some m.2 else none

/-- The messages of a log, sentinels left out. -/
def messages {α : Type} : List (Mail α) → List (Nat × α)
  | [] => []
  | .msg sender body :: rest => (sender,body) :: messages rest
  | .exit :: rest => messages rest

theorem beforeExitPrefix {α : Type} (log : List (Mail α)) : beforeExit log <+: messages log := by
  induction log with
  | nil => exact List.prefix_refl []
  | cons item rest ih =>
    cases item with
    | msg sender body => exact List.cons_prefix_cons.mpr ⟨rfl,ih⟩
    | exit => exact List.nil_prefix

theorem messagesFromSender {α : Type} (sender : Nat) (events : List (ActorEvent α)) :
    (messages (putLog events)).filterMap (fromSender sender) = sentBy sender events := by
  induction events with
  | nil => rfl
  | cons e es ih =>
    cases e with
    | send i body => by_cases same : i = sender <;> simp [putLog,messages,sentBy,fromSender,same,ih]
    | close i => simpa [putLog,messages,sentBy] using ih
    | _ => simpa [putLog,sentBy] using ih

/-- The run loop, left alone on a mailbox holding a sentinel, takes every
message ahead of it and then the sentinel. -/
theorem receiveAll {α : Type} {a : Actor α} (running : a.phase = .running) (exit : Mail.exit ∈ a.mailbox) :
    ∃ a', a.run (List.replicate ((beforeExit a.mailbox).length + 1) .receive) = some a' ∧
      a'.phase = .ended .sentinel ∧ a'.handled = a.handled ++ beforeExit a.mailbox := by
  obtain ⟨mailbox,terminated,phase,handled⟩ := a
  simp only at running exit ⊢
  subst running
  induction mailbox generalizing handled with
  | nil => cases exit
  | cons item rest ih =>
    cases item with
    | exit => exact ⟨_,rfl,rfl,by simp [beforeExit]⟩
    | msg sender body =>
      obtain ⟨a',ran,ended,all⟩ := ih (handled ++ [(sender,body)]) (by simpa using exit)
      exact ⟨a',ran,ended,by simp [all,beforeExit]⟩

end Tasq

namespace Tasq

/-- Two senders, a `close` between their messages, and the actor run to its end. -/
def twoSenders : List (ActorEvent Nat) :=
  [.send 0 10,.send 1 20,.close 2,.send 0 30,.start,.receive,.receive,.receive,.finish,.join]

end Tasq
