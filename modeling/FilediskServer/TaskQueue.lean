import FilediskServer.PoolCalls

/-! `TaskQueue` of the TCP server: a bounded queue under one mutex with two condition
variables, and a flag that ends the waiting of its consumers. -/
namespace FilediskServer.TaskQueue
open Interaction PoolCalls
variable {ι τ : Type}

/-- `Condition::wait`. -/
def wait (c : Condition) : Job ι τ Unit := do
  ask (.mutex (.sleep c))
  ask (.mutex (.rise c))
  ask (.mutex .relock)

def full (queSize : Nat) : Job ι τ Bool := do
  let size ← ask .size
  pure (queSize == size)

def empty : Job ι τ Bool := do
  let size ← ask .size
  pure (0 == size)

def push (queSize : Nat) (task : ElemType τ) : Job ι τ Unit := do
  ask (.mutex .lock)
  .iter (fun () => do
    if ← full queSize then
      wait .notFull
      pure (.inl ())
    else pure (.inr ())) ()
  ask (.enqueue task)
  ask (.mutex (.notify .notEmpty))
  ask (.mutex .unlock)

def pop : Job ι τ (ElemType τ) := do
  ask (.mutex .lock)
  .iter (fun () => do
    if ← empty then
      if ← ask .readFlag then
        wait .notEmpty
        pure (.inl ())
      else pure (.inr ())
    else pure (.inr ())) ()
  if ← ask .readFlag then
    let tmp ← ask .front
    ask .dequeue
    ask (.mutex (.notify .notFull))
    ask (.mutex .unlock)
    pure tmp
  else
    ask (.mutex .unlock)
    pure none

def wakeup : Job ι τ Unit := do
  ask .clearFlag
  ask (.mutex (.notifyAll .notEmpty))

def serve (queSize : Nat) : QueueCall τ → Job ι τ Unit
  | .push task => push queSize task
  | .pop => do
    match ← pop with
    | some task => ask (.callback task)
    | none => pure ()
  | .wakeup => wakeup

/-- A thread that calls what it is asked to, as long as that is its part, and runs the tasks
it gets. -/
def client (queSize : Nat) (accepts : QueueCall τ → Bool) : Job ι τ Unit :=
  .iter (fun () => do
    match ← ask .next with
    | none => pure (.inr ())
    | some request =>
      if accepts request then
        serve queSize request
        pure (.inl ())
      else pure (.inr ())) ()

end FilediskServer.TaskQueue
