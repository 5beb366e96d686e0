import Mathlib.Logic.Basic

/-! Jobs, job results and futures as the client sees them. `tasq/job.py` is not
among the sources: `Job` and `JobResult` follow the spec's data model, and the
client code below only reads the fields named there. Callables and arguments are
opaque text; the client never looks inside them. -/
namespace Tasq

/-- A correlation key: a caller's name, or an identifier `uuid4()` generated for
a job given none. The empty name is the default `kwargs.pop('name', u'')`. -/
inductive JobKey where
  | name (text : String)
  | uuid (value : Nat)
  deriving DecidableEq, Repr

/-- The `u''` default of `schedule`'s `name` keyword. -/
def JobKey.unnamed : JobKey := .name ""

/-- What a caller hands to `schedule` besides the name. -/
structure Call where
  func : String
  args : List String
  kwargs : List (String × String)
  deriving DecidableEq, Repr

/-- Modelled from the spec: `tasq/job.py` is missing. A job keeps the identifier
it was built with, which is never the empty name. -/
structure Job where
  jobId : JobKey
  func : String
  args : List String
  kwargs : List (String × String)
  named : jobId ≠ JobKey.unnamed
  deriving DecidableEq, Repr

/-- Modelled from the spec: `Job(name, func, *args, **kwargs)` takes `name` as
its id, and generates one when no name is supplied; `uuid` is what `uuid4()`
returns at that point. -/
def Job.new (name : JobKey) (uuid : Nat) (call : Call) : Job :=
  if h : name = JobKey.unnamed then ⟨.uuid uuid,call.func,call.args,call.kwargs,by simp [JobKey.unnamed]⟩
  else ⟨name,call.func,call.args,call.kwargs,h⟩

/-- The arguments a buffered job is scheduled again with by `connect`. -/
def Job.call (job : Job) : Call := ⟨job.func,job.args,job.kwargs⟩

theorem Job.newNamed {name : JobKey} (uuid : Nat) (call : Call) (named : name ≠ JobKey.unnamed) :
    Job.new name uuid call = ⟨name,call.func,call.args,call.kwargs,named⟩ := by
  simp [Job.new,named]

/-- Replaying a job under its own id rebuilds the same job: what `connect`
sends is what the caller scheduled. -/
@[simp] theorem Job.newReplay (job : Job) (uuid : Nat) : Job.new job.jobId uuid job.call = job := by
  rw [Job.newNamed uuid job.call job.named]
  rfl

theorem Job.newId (name : JobKey) (uuid : Nat) (call : Call) :
    (Job.new name uuid call).jobId = if name = JobKey.unnamed then .uuid uuid else name := by
  unfold Job.new
  split <;> simp_all

/-- Modelled from the spec: the outcome enumeration `JobStatus`. -/
inductive JobStatus where
  | success
  | failed
  deriving DecidableEq, Repr

/-- Modelled from the spec: a result carries the correlation key of its job. -/
structure JobResult where
  name : JobKey
  outcome : JobStatus
  value : Option String
  exc : Option String
  execTime : Nat
  deriving DecidableEq, Repr

/-- `TasqFuture.unwrap` on the result the future holds. -/
def JobResult.unwrap (r : JobResult) : Option String :=
  if r.outcome = .failed then r.exc else r.value

/-- A future is empty until the gathering loop sets its result. -/
abbrev FutureState := Option JobResult

end Tasq
