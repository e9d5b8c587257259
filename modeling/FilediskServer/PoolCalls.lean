import FilediskServer.Library.Monitor
import FilediskServer.Library.Rely

/-! The steps by which the threads of the server act on what the thread pool, its queue and
the event loop share. -/
namespace FilediskServer.PoolCalls
open Interaction

/-- The two condition variables of the queue; there is one mutex. -/
inductive Condition
  | notFull
  | notEmpty
  deriving DecidableEq

/-- A `function<void()>`, which may be empty. -/
abbrev ElemType (τ : Type) := Option τ

/-- What a client of the queue may call. -/
inductive QueueCall (τ : Type)
  | push (task : ElemType τ)
  | pop
  | wakeup

inductive Call (ι τ : Type)
  | mutex (o : MonitorOp Condition)
  /-- `_que.size()` -/
  | size
  /-- `_que.push` -/
  | enqueue (task : ElemType τ)
  /-- `_que.front()` -/
  | front
  /-- `_que.pop` -/
  | dequeue
  | readFlag
  | clearFlag
  /-- the end of a callback of a task that is not empty -/
  | callback (task : τ)
  | readIsExit
  | setIsExit
  | sleep (seconds : Nat)
  | exit
  | join (thread : ι)
  | setIsLooping (b : Bool)
  | readIsLooping
  /-- `epoll_wait` with the tasks that `onMessage` makes of the messages it reports -/
  | waitEpollFd
  /-- what the owner of a thread asks it to do next -/
  | next

abbrev Call.Res {ι τ : Type} : Call ι τ → Type
  | .size => Nat
  | .front => ElemType τ
  | .readFlag => Bool
  | .readIsExit => Bool
  | .readIsLooping => Bool
  | .waitEpollFd => List (ElemType τ)
  | .next => Option (QueueCall τ)
  | _ => Unit

abbrev signature (ι τ : Type) : Signature := ⟨Call ι τ,Call.Res⟩

abbrev Job (ι τ : Type) := Prog (signature ι τ) Empty

def ask {ι τ : Type} (c : Call ι τ) : Job ι τ c.Res := .call c .ret

/-- `pushed`, `taken` and `executed` record what went through the queue, in order, and
`woken` that `wakeup` has come to its end. -/
structure Shared (ι τ : Type) where
  mutex : Monitor ι Condition
  que : List (ElemType τ)
  flag : Bool
  isExit : Bool
  isLooping : Bool
  exited : ι → Bool
  pushed : List (ElemType τ)
  taken : List (ι × ElemType τ)
  executed : List (ι × τ)
  woken : Bool

/-- The constructors of `ThreadPool`, `TaskQueue` and `EventLoop`. -/
def Shared.new (ι τ : Type) : Shared ι τ where
  mutex := ⟨none,fun _ => .running⟩
  que := []
  flag := true
  isExit := false
  isLooping := false
  exited _ := false
  pushed := []
  taken := []
  executed := []
  woken := false

section
variable {ι τ : Type} [DecidableEq ι]

/-- `front` and `pop` of an empty queue are undefined, and `pthread_join` waits. A size that is read while
another thread has the mutex, and is perhaps at work on the queue, may be any number. -/
inductive Acts (i : ι) (g : Shared ι τ) : (c : Call ι τ) → c.Res → Shared ι τ → Prop
  | mutex {o : MonitorOp Condition} {m : Monitor ι Condition} (acts : Monitor.Acts i g.mutex o m) :
      Acts i g (.mutex o) () {g with
        mutex := m, woken := g.woken || decide (o = .notifyAll .notEmpty)}
  | size {n : Nat} (read : (∀ j, g.mutex.owner = some j → j = i) → n = g.que.length) : Acts i g .size n g
  | enqueue {task : ElemType τ} : Acts i g (.enqueue task) () {g with
      que := g.que ++ [task], pushed := g.pushed ++ [task]}
  | front {task : ElemType τ} {rest : List (ElemType τ)} (first : g.que = task :: rest) :
      Acts i g .front task g
  | dequeue {task : ElemType τ} {rest : List (ElemType τ)} (first : g.que = task :: rest) :
      Acts i g .dequeue () {g with que := rest, taken := g.taken ++ [(i,task)]}
  | readFlag : Acts i g .readFlag g.flag g
  | clearFlag : Acts i g .clearFlag () {g with flag := false}
  | callback {task : τ} :
      Acts i g (.callback task) () {g with executed := g.executed ++ [(i,task)]}
  | readIsExit : Acts i g .readIsExit g.isExit g
  | setIsExit : Acts i g .setIsExit () {g with isExit := true}
  | sleep {seconds : Nat} : Acts i g (.sleep seconds) () g
  | exit : Acts i g .exit () {g with exited := Function.update g.exited i true}
  | join {thread : ι} (finished : g.exited thread = true) : Acts i g (.join thread) () g
  | setIsLooping {b : Bool} : Acts i g (.setIsLooping b) () {g with isLooping := b}
  | readIsLooping : Acts i g .readIsLooping g.isLooping g
  | waitEpollFd {tasks : List (ElemType τ)} : Acts i g .waitEpollFd tasks g
  | next {request : Option (QueueCall τ)} : Acts i g .next request g

theorem acts_size {i : ι} {g g' : Shared ι τ} {size : Nat} (acts : Acts i g .size size g')
    (alone : ∀ j, g.mutex.owner = some j → j = i) : size = g.que.length ∧ g' = g := by
  cases acts with
  | size read => exact ⟨read alone,rfl⟩

theorem acts_readFlag {i : ι} {g g' : Shared ι τ} {b : Bool} (acts : Acts i g .readFlag b g') :
    b = g.flag ∧ g' = g := by
  cases acts
  exact ⟨rfl,rfl⟩

theorem acts_front {i : ι} {g g' : Shared ι τ} {task : ElemType τ} (acts : Acts i g .front task g') :
    g' = g := by
  cases acts
  rfl

theorem acts_dequeue {i : ι} {g g' : Shared ι τ} {r : Unit} (acts : Acts i g .dequeue r g') :
    ∃ task, g.que = task :: g'.que := by
  cases acts with
  | dequeue first => exact ⟨_,first⟩

theorem acts_flag {i : ι} {g g' : Shared ι τ} {c : Call ι τ} {r : c.Res} (acts : Acts i g c r g')
    (down : g.flag = false) : g'.flag = false := by
  cases acts with
  | clearFlag => rfl
  | _ => exact down

abbrev Last (ι τ : Type) := Option (Event (signature ι τ))

def Sys (i : ι) : Handler (signature ι τ) (Last ι τ × Shared ι τ) := Recording (Acts i)

abbrev Threads (ι τ : Type) := Pool (signature ι τ) Empty Unit ι (Last ι τ) (Shared ι τ)

/-- Any thread takes the next step. -/
def Moves (s s' : Threads ι τ) : Prop := ∃ i event, Turn Sys i s event s'

/-- A thread remembers its last call. -/
theorem turn_call {s s' : Threads ι τ} {i : ι} {e : Event (signature ι τ)} (turn : Turn Sys i s (some e) s') :
    (s'.threads i).2 = some e ∧ Acts i s.shared e.1 e.2 s'.shared := by
  cases turn with
  | mk up step =>
    obtain ⟨none,_⟩ | ⟨c,r,same,answered⟩ := step_acts step
    · cases none
    · cases same
      exact ⟨by simpa using answered.2,answered.1⟩

theorem turn_silent {s s' : Threads ι τ} {i : ι} (turn : Turn Sys i s none s') :
    (s'.threads i).2 = (s.threads i).2 ∧ s'.shared = s.shared := by
  cases turn with
  | mk up step =>
    obtain ⟨_,same⟩ | ⟨_,_,some,_⟩ := step_acts step
    · obtain ⟨rfl,rfl⟩ := Prod.mk.inj same
      simp
    · cases some

end

def Threads.new {ι τ : Type} (jobs : ι → Job ι τ Unit) : Threads ι τ :=
  ⟨fun i => (jobs i,none),Shared.new ι τ⟩

/-- What is asked of each thread and which messages arrive, in runs that are played. `torn` is the size
that a thread reads while another has the mutex. -/
structure Script (ι τ : Type) where
  all : List ι
  asked : ι → Shared ι τ → Option (QueueCall τ)
  messages : Shared ι τ → List (ElemType τ)
  torn : Shared ι τ → Nat := fun g => g.que.length

namespace Script
variable {ι τ : Type} [DecidableEq ι]

def answer (script : Script ι τ) (i : ι) (g : Shared ι τ) : (c : Call ι τ) → Option (c.Res × Shared ι τ)
  | .mutex o => (g.mutex.respond script.all i o).map fun m => ((),{g with
      mutex := m, woken := g.woken || decide (o = .notifyAll .notEmpty)})
  | .size => some (if g.mutex.owner.all (· = i) then g.que.length else script.torn g,g)
  | .enqueue task => some ((),{g with que := g.que ++ [task], pushed := g.pushed ++ [task]})
  | .front => g.que.head?.map fun task => (task,g)
  | .dequeue => g.que.head?.map fun task => ((),{g with
      que := g.que.tail, taken := g.taken ++ [(i,task)]})
  | .readFlag => some (g.flag,g)
  | .clearFlag => some ((),{g with flag := false})
  | .callback task => some ((),{g with executed := g.executed ++ [(i,task)]})
  | .readIsExit => some (g.isExit,g)
  | .setIsExit => some ((),{g with isExit := true})
  | .sleep _ => some ((),g)
  | .exit => some ((),{g with exited := Function.update g.exited i true})
  | .join thread => if g.exited thread = true then some ((),g) else none
  | .setIsLooping b => some ((),{g with isLooping := b})
  | .readIsLooping => some (g.isLooping,g)
  | .waitEpollFd => some (script.messages g,g)
  | .next => some (script.asked i g,g)

def respond (script : Script ι τ) (i : ι) : Responder (signature ι τ) (Last ι τ × Shared ι τ) :=
  fun w c => (script.answer i w.2 c).map fun (r,g) => (r,(some ⟨c,r⟩,g))

theorem answer_acts {script : Script ι τ} (every : ∀ j, j ∈ script.all) {i : ι} {g g' : Shared ι τ}
    {c : Call ι τ} {r : c.Res} (answered : script.answer i g c = some (r,g')) : Acts i g c r g' := by
  cases c with
  | mutex o =>
    obtain ⟨m,acts,same⟩ := Option.map_eq_some_iff.mp answered
    cases same
    exact .mutex (Monitor.respond_acts every acts)
  | front =>
    obtain ⟨task,first,same⟩ := Option.map_eq_some_iff.mp answered
    cases same
    exact .front (List.eq_cons_of_mem_head? first)
  | dequeue =>
    obtain ⟨task,first,same⟩ := Option.map_eq_some_iff.mp answered
    cases same
    exact .dequeue (List.eq_cons_of_mem_head? first)
  | join thread =>
    obtain ⟨finished,same⟩ := Option.ite_none_right_eq_some.mp answered
    cases same
    exact .join finished
  | size =>
    cases answered
    refine .size fun alone => if_pos ?_
    cases owner : g.mutex.owner with
    | none => rfl
    | some j => exact decide_eq_true (alone j owner)
  | enqueue => cases answered; exact .enqueue
  | readFlag => cases answered; exact .readFlag
  | clearFlag => cases answered; exact .clearFlag
  | callback => cases answered; exact .callback
  | readIsExit => cases answered; exact .readIsExit
  | setIsExit => cases answered; exact .setIsExit
  | sleep => cases answered; exact .sleep
  | exit => cases answered; exact .exit
  | setIsLooping => cases answered; exact .setIsLooping
  | readIsLooping => cases answered; exact .readIsLooping
  | waitEpollFd => cases answered; exact .waitEpollFd
  | next => cases answered; exact .next

theorem respond_within {script : Script ι τ} (every : ∀ j, j ∈ script.all) (i : ι) :
    (script.respond i).Within (Sys i) := by
  intro w c r w' answered
  obtain ⟨⟨r,g⟩,answer,same⟩ := Option.map_eq_some_iff.mp answered
  cases same
  exact ⟨answer_acts every answer,rfl⟩

theorem trail_moves {script : Script ι τ} (every : ∀ j, j ∈ script.all) {s : Threads ι τ}
    {schedule : List ι} {run : List (Threads ι τ)}
    (trail : s.trail script.respond schedule = some run) : (s :: run).IsChain Moves :=
  trail_sound (respond_within every) (fun _ e => by cases e) trail

theorem play_turns {script : Script ι τ} (every : ∀ j, j ∈ script.all) {B : ι → Prop}
    {s s' : Threads ι τ} {schedule : List ι} (only : ∀ i ∈ schedule, B i)
    (played : s.play script.respond schedule = some s') :
    Relation.ReflTransGen (fun s s' => ∃ i event, B i ∧ Turn Sys i s event s') s s' := by
  apply Interaction.play_turns (fun _ => True) _ only (fun _ e => by cases e) trivial played
  exact fun i w c r w' _ answered => ⟨respond_within every i w c r w' answered,trivial⟩

theorem play_moves {script : Script ι τ} (every : ∀ j, j ∈ script.all) {s s' : Threads ι τ}
    {schedule : List ι} (played : s.play script.respond schedule = some s') :
    Relation.ReflTransGen Moves s s' :=
  (play_turns (B := fun _ => True) every (fun _ _ => trivial) played).lift id
    fun _ _ ⟨i,event,_,turn⟩ => ⟨i,event,turn⟩

end Script

end FilediskServer.PoolCalls
