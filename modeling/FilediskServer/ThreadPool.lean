import FilediskServer.TaskQueue
import Mathlib.Data.Fintype.Sum
import Mathlib.Tactic.DeriveFintype

/-! `ThreadPool` over the queue, the `EventLoop` that gives it tasks, and what `FileServer`
does to start and to stop them. -/
namespace FilediskServer.ThreadPool
open Interaction PoolCalls TaskQueue
variable {ι τ : Type}

def addTask (queSize : Nat) (task : ElemType τ) : Job ι τ Unit :=
  if task.isSome then push queSize task else pure ()

def getTask : Job ι τ (ElemType τ) := pop

def doTask : Job ι τ Unit :=
  .iter (fun () => do
    if ← ask .readIsExit then pure (.inr ())
    else
      match ← getTask with
      | some taskcb => ask (.callback taskcb); pure (.inl ())
      | none => pure (.inl ())) ()

/-- `Thread::threadFunc` of a thread of the pool. -/
def threadFunc : Job ι τ Unit := do
  doTask
  ask .exit

/-- `Thread::stop` of each thread of the pool, all of which were started. -/
def stopThreads : List ι → Job ι τ Unit
  | [] => pure ()
  | th :: rest => do
    ask (.join th)
    stopThreads rest

def stop (threads : List ι) : Job ι τ Unit := do
  .iter (fun () => do
    if ← empty then pure (.inr ())
    else
      ask (.sleep 1)
      pure (.inl ())) ()
  ask .setIsExit
  wakeup
  stopThreads threads

/-- A thread that adds the tasks it is asked to. -/
def adder (queSize : Nat) : Job ι τ Unit :=
  .iter (fun () => do
    match ← ask .next with
    | some (.push task) =>
      addTask queSize task
      pure (.inl ())
    | _ => pure (.inr ())) ()

/-- The callbacks of one round of the loop, each of which ends in `addTask`. -/
def handleMessages (queSize : Nat) : List (ElemType τ) → Job ι τ Unit
  | [] => pure ()
  | task :: rest => do
    addTask queSize task
    handleMessages queSize rest

/-- `EventLoop::loop`. -/
def loop (queSize : Nat) : Job ι τ Unit := do
  ask (.setIsLooping true)
  .iter (fun () => do
    if ← ask .readIsLooping then
      let tasks ← ask .waitEpollFd
      handleMessages queSize tasks
      pure (.inl ())
    else pure (.inr ())) ()

/-- `FileServer::stop`: the pool first, then the loop. -/
def stopServer (threads : List ι) : Job ι τ Unit := do
  stop threads
  ask (.setIsLooping false)

/-- The threads around a pool of `n`: those that feed it, and one that stops it. -/
inductive Thread (n : Nat) (κ : Type)
  | worker (i : Fin n)
  | feeder (k : κ)
  | stopper
  deriving DecidableEq, Fintype

def workers (n : Nat) (κ : Type) : List (Thread n κ) := (List.finRange n).map .worker

def start {n : Nat} {κ τ : Type} (feed : κ → Job (Thread n κ) τ Unit)
    (stop : Job (Thread n κ) τ Unit) : Threads (Thread n κ) τ :=
  Threads.new fun
    | .worker _ => threadFunc
    | .feeder k => feed k
    | .stopper => stop

end FilediskServer.ThreadPool
