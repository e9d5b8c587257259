import FilediskServer.FileTask

/-! The TCP server as threads around a queue: the epoll loop with `onMessage`, the
`TaskQueue` of the pool, and workers that run `FileTask::process`. -/
namespace FilediskServer.FileServer
open Interaction Bytes Calls FileTask

structure Config where
  threadNum : Nat
  queSize : Nat
  env : Env
  md5 : Bytes → CusInfo.Digest

inductive Status
  | live
  | destroyed
  deriving DecidableEq

/-- A `FileTask` by the connection it was made for. It is destroyed once its `MYSQL` handle
is closed. -/
structure Object where
  con : Nat
  status : Status

def Object.destroy (o : Object) : Object := {o with status := .destroyed}

/-- What `epoll_wait` can report. A connection goes by the number of its `accept`. -/
inductive Fd
  | listenfd
  | connfd (con : Nat)

inductive Loop
  | waitEpollFd
  | events (rest : List Fd)
  /-- `onMessage` has constructed the object and calls `addTask` -/
  | push (task : Nat) (rest : List Fd)
  /-- `addTask` has returned and the destructor comes next -/
  | leave (task : Nat) (rest : List Fd)

/-- A thread of the pool holds the object it was sent to and what is left of `process`.
`taken` records which task took which byte off a connection, and `read` what each task has read. -/
structure State where
  backlog : Nat
  accepted : Nat
  conns : Nat → Conn
  /-- the connections that their clients have closed altogether -/
  closed : Nat → Bool
  registered : List Nat
  store : Store
  made : Nat
  objects : Nat → Option Object
  loop : Loop
  que : List Nat
  threads : Nat → Option (Nat × Job Unit)
  taken : Nat → List (Nat × UInt8)
  read : Nat → Bytes
  terminated : Bool

def State.start (store : Store) : State where
  backlog := 0
  accepted := 0
  conns _ := ⟨[],false,[]⟩
  closed _ := false
  registered := []
  store := store
  made := 0
  objects _ := none
  loop := .waitEpollFd
  que := []
  threads _ := none
  taken _ := []
  read _ := []
  terminated := false

def evtListSize : Nat := 1024

/-- `EPOLLIN`, which stays up as long as there is something to read. -/
def Readable (cfg : Config) (s : State) : Fd → Prop
  | .listenfd => 0 < s.backlog
  | .connfd c => c ∈ s.registered ∧
      ((s.conns c).input ≠ [] ∨ (s.conns c).ended = true ∨ cfg.env.readFails (s.conns c))

structure Reported (cfg : Config) (s : State) (fds : List Fd) : Prop where
  readable : ∀ fd ∈ fds, Readable cfg s fd
  once : fds.Nodup
  fits : fds.length ≤ evtListSize
  all : fds.length < evtListSize → ∀ fd, Readable cfg s fd → fd ∈ fds

/-- `TcpConnection::isClosed`; a connection with nothing to say holds the thread. -/
inductive IsClosed (env : Env) (c : Conn) : Bool → Prop
  | data (unread : c.input ≠ []) : IsClosed env c false
  | eof (empty : c.input = []) (ended : c.ended = true) : IsClosed env c true
  | failed (fails : env.readFails c) : IsClosed env c false
  | eintr : IsClosed env c false

inductive ClientStep : State → State → Prop
  | connect {s : State} : ClientStep s {s with backlog := s.backlog + 1}
  | send {s : State} {c : Nat} {b : Bytes} (connected : c < s.accepted + s.backlog)
      (unended : (s.conns c).ended = false) : ClientStep s {s with
        conns := Function.update s.conns c {s.conns c with input := (s.conns c).input ++ b}}
  | shut {s : State} {c : Nat} (connected : c < s.accepted + s.backlog) : ClientStep s {s with
      conns := Function.update s.conns c {s.conns c with ended := true}}
  | close {s : State} {c : Nat} (connected : c < s.accepted + s.backlog) : ClientStep s {s with
      conns := Function.update s.conns c {s.conns c with ended := true},
      closed := Function.update s.closed c true}

/-- `EventLoop::waitEpollFd` with the callbacks. -/
inductive LoopStep (cfg : Config) : State → State → Prop
  | epollWait {s : State} {fds : List Fd} (here : s.loop = .waitEpollFd)
      (reported : Reported cfg s fds) : LoopStep cfg s {s with loop := .events fds}
  | roundOver {s : State} (here : s.loop = .events []) :
      LoopStep cfg s {s with loop := .waitEpollFd}
  | accept {s : State} {rest : List Fd} (here : s.loop = .events (.listenfd :: rest))
      (waiting : 0 < s.backlog) : LoopStep cfg s {s with
        backlog := s.backlog - 1, accepted := s.accepted + 1,
        registered := s.accepted :: s.registered, loop := .events rest}
  | acceptFails {s : State} {rest : List Fd} (here : s.loop = .events (.listenfd :: rest)) :
      LoopStep cfg s {s with loop := .events rest}
  | unknown {s : State} {c : Nat} {rest : List Fd} (here : s.loop = .events (.connfd c :: rest))
      (gone : c ∉ s.registered) : LoopStep cfg s {s with loop := .events rest}
  | closed {s : State} {c : Nat} {rest : List Fd} (here : s.loop = .events (.connfd c :: rest))
      (found : c ∈ s.registered) (isClosed : IsClosed cfg.env (s.conns c) true) :
      LoopStep cfg s {s with registered := s.registered.erase c, loop := .events rest}
  | onMessage {s : State} {c : Nat} {rest : List Fd} (here : s.loop = .events (.connfd c :: rest))
      (found : c ∈ s.registered) (isClosed : IsClosed cfg.env (s.conns c) false) :
      LoopStep cfg s {s with
        made := s.made + 1,
        objects := Function.update s.objects s.made (some ⟨c,.live⟩), loop := .push s.made rest}
  | push {s : State} {task : Nat} {rest : List Fd} (here : s.loop = .push task rest)
      (notFull : s.que.length ≠ cfg.queSize) :
      LoopStep cfg s {s with que := s.que ++ [task], loop := .leave task rest}
  | leave {s : State} {task : Nat} {rest : List Fd} (here : s.loop = .leave task rest) :
      LoopStep cfg s {s with
        objects := Function.update s.objects task ((s.objects task).map Object.destroy),
        loop := .events rest}

def bytesRead : Option (Event signature) → Bytes
  | some ⟨.read _,.data b⟩ => b
  | _ => []

/-- `ThreadPool::doTask`. What a thread does with a destroyed object C++ leaves open. All objects
of `onMessage` have one place on its stack, so that here a thread goes on with the connection of its
own object or of one that was made there later. -/
inductive ThreadStep (cfg : Config) : State → State → Prop
  | pop {s : State} {i task : Nat} {rest : List Nat} (thread : i < cfg.threadNum)
      (idle : s.threads i = none) (first : s.que = task :: rest) : ThreadStep cfg s {s with
        que := rest, threads := Function.update s.threads i (some (task,process cfg.md5))}
  | process {s : State} {i task later : Nat} {job job' : Job Unit} {o : Object}
      {event : Option (Event signature)} {w : World} (running : s.threads i = some (task,job))
      (place : task ≤ later) (object : s.objects later = some o)
      (step : Step (Sys cfg.env task) job ⟨s.conns o.con,s.store⟩ event job' w) :
      ThreadStep cfg s {s with
        threads := Function.update s.threads i (some (task,job')),
        conns := Function.update s.conns o.con w.conn, store := w.store,
        taken := Function.update s.taken o.con
          (s.taken o.con ++ (bytesRead event).map fun b => (task,b)),
        read := Function.update s.read task (s.read task ++ bytesRead event)}
  | finish {s : State} {i task : Nat} (running : s.threads i = some (task,.ret ())) :
      ThreadStep cfg s {s with threads := Function.update s.threads i none}
  | terminate {s : State} {i task : Nat} {e : Halt} (running : s.threads i = some (task,.throw e)) :
      ThreadStep cfg s {s with terminated := true}
  /-- A write to a connection that its client has closed may raise `SIGPIPE`, which nothing handles. -/
  | sigpipe {s : State} {i task later : Nat} {source : Source} {left : Nat} {k : WriteResult → Job Unit}
      {o : Object} (running : s.threads i = some (task,.call (.write source left) k)) (place : task ≤ later)
      (object : s.objects later = some o) (gone : s.closed o.con = true) :
      ThreadStep cfg s {s with terminated := true}

/-- One step of any thread or client; an uncaught exception or a signal has ended the server. -/
inductive ServerStep (cfg : Config) (s s' : State) : Prop
  | client (up : s.terminated = false) (step : ClientStep s s')
  | loop (up : s.terminated = false) (step : LoopStep cfg s s')
  | thread (up : s.terminated = false) (step : ThreadStep cfg s s')

inductive Place
  | queued (k : Nat)
  | running (i : Nat)

namespace State

def callAt (s : State) : Place → Option Nat
  | .queued k => s.que[k]?
  | .running i => (s.threads i).map Prod.fst

def conOf (s : State) (task : Nat) : Option Nat := (s.objects task).map Object.con

def statusOf (s : State) (task : Nat) : Option Status := (s.objects task).map Object.status

def Outstanding (s : State) (task : Nat) : Prop := ∃ p, s.callAt p = some task

end State

section steps
variable {cfg : Config} {s s' : State}

/-- Posting adds one call at the end of the queue. Every other step only moves calls, to
different places, or ends them. -/
inductive CallsAfter (s s' : State) : Prop
  | kept (origin : Place → Place) (apart : Function.Injective origin)
      (moved : ∀ p task, s'.callAt p = some task → s.callAt (origin p) = some task)
      (sameLoop : ∀ task rest, s.loop = .push task rest → s'.loop = .push task rest)
  | posted (task : Nat) (rest : List Fd) (here : s.loop = .push task rest)
      (after : s' = {s with que := s.que ++ [task], loop := .leave task rest})

theorem calls_unmoved (que : s'.que = s.que) (threads : s'.threads = s.threads)
    (sameLoop : ∀ task rest, s.loop = .push task rest → s'.loop = .push task rest) :
    CallsAfter s s' := by
  refine .kept id Function.injective_id (fun p task held => ?_) sameLoop
  cases p with
  | queued k => simpa [State.callAt,que] using held
  | running i => simpa [State.callAt,threads] using held

def beforePop (i : Nat) : Place → Place
  | .queued k => .queued (k + 1)
  | .running j => if j = i then .queued 0 else .running j

theorem beforePop_injective (i : Nat) : Function.Injective (beforePop i) := by
  intro p q same
  cases p with
  | queued k =>
    cases q with
    | queued l => simpa [beforePop] using same
    | running j => by_cases taken : j = i <;> simp [beforePop,taken] at same
  | running j =>
    cases q with
    | queued l => by_cases taken : j = i <;> simp [beforePop,taken] at same
    | running l =>
      by_cases first : j = i <;> by_cases second : l = i <;> simp_all [beforePop]

theorem thread_calls (step : ThreadStep cfg s s') : CallsAfter s s' := by
  have updated {i task : Nat} {cell : Option (Nat × Job Unit)} (j : Nat) (was : (s.threads i).map Prod.fst = some task)
      (becomes : ∀ u, cell.map Prod.fst = some u → u = task) (u : Nat)
      (held : (Function.update s.threads i cell j).map Prod.fst = some u) :
      (s.threads j).map Prod.fst = some u := by
    by_cases same : j = i
    · subst same
      rw [Function.update_self] at held
      rw [was,becomes u held]
    · rwa [Function.update_of_ne same] at held
  cases step with
  | @pop i task rest thread idle first =>
    refine .kept (beforePop i) (beforePop_injective i) (fun p u held => ?_) fun _ _ same => same
    cases p with
    | queued k => simpa [State.callAt,beforePop,first] using held
    | running j =>
      by_cases same : j = i
      · subst same
        simpa [State.callAt,beforePop,first] using held
      · simpa [State.callAt,beforePop,same] using held
  | process running =>
    refine .kept id Function.injective_id (fun p u held => ?_) fun _ _ same => same
    cases p with
    | queued k => exact held
    | running j => exact updated j (by rw [running]; rfl) (fun u same => by cases same; rfl) u held
  | finish running =>
    refine .kept id Function.injective_id (fun p u held => ?_) fun _ _ same => same
    cases p with
    | queued k => exact held
    | running j => exact updated j (by rw [running]; rfl) (fun u same => by cases same) u held
  | terminate | sigpipe => exact calls_unmoved rfl rfl fun _ _ same => same

theorem server_calls (step : ServerStep cfg s s') : CallsAfter s s' := by
  cases step with
  | client _ step => cases step <;> exact calls_unmoved rfl rfl fun _ _ same => same
  | thread _ step => exact thread_calls step
  | loop _ step =>
    cases step with
    | push here => exact .posted _ _ here rfl
    | epollWait here | roundOver here | accept here | acceptFails here | unknown here | closed here
      | onMessage here | leave here =>
      exact calls_unmoved rfl rfl fun _ _ same => by rw [here] at same; cases same

theorem outstanding_before {task : Nat} (step : ServerStep cfg s s') (after : s'.Outstanding task) :
    s.Outstanding task ∨ ∃ rest, s.loop = .push task rest ∧ s'.loop = .leave task rest := by
  obtain ⟨p,held⟩ := after
  cases server_calls step with
  | kept origin _ moved => exact .inl ⟨origin p,moved p task held⟩
  | posted posted rest here after =>
    subst after
    cases p with
    | running i => exact .inl ⟨.running i,held⟩
    | queued k =>
      simp only [State.callAt,List.getElem?_append] at held
      split_ifs at held
      · exact .inl ⟨.queued k,held⟩
      · obtain rfl : posted = task := by
          have inside := List.mem_of_getElem? held
          exact (List.mem_singleton.mp inside).symm
        exact .inr ⟨rest,here,rfl⟩

inductive ObjectAfter (s s' : State) (task : Nat) : Prop
  | kept (same : s'.objects task = s.objects task)
  | constructed (c : Nat) (new : s.made = task) (made : s'.made = s.made + 1)
      (becomes : s'.objects task = some ⟨c,.live⟩)
  | destroyed (rest : List Fd) (here : s.loop = .leave task rest) (leaves : s'.loop = .events rest)
      (becomes : s'.objects task = (s.objects task).map Object.destroy)

theorem server_objects (step : ServerStep cfg s s') (task : Nat) : ObjectAfter s s' task := by
  cases step with
  | client _ step => cases step <;> exact .kept rfl
  | thread _ step => cases step <;> exact .kept rfl
  | loop _ step =>
    cases step with
    | @onMessage c rest =>
      by_cases new : task = s.made
      · subst new
        exact .constructed c rfl rfl (Function.update_self ..)
      · exact .kept (Function.update_of_ne new ..)
    | @leave left rest here =>
      by_cases same : task = left
      · subst same
        exact .destroyed rest here rfl (Function.update_self ..)
      · exact .kept (Function.update_of_ne same ..)
    | epollWait | roundOver | accept | acceptFails | unknown | closed | push => exact .kept rfl

theorem server_made (step : ServerStep cfg s s') : s.made ≤ s'.made := by
  cases step with
  | client _ step => cases step <;> exact le_rfl
  | thread _ step => cases step <;> exact le_rfl
  | loop _ step =>
    cases step with
    | onMessage => exact Nat.le_succ _
    | epollWait | roundOver | accept | acceptFails | unknown | closed | push | leave => exact le_rfl

theorem server_push {task : Nat} {rest : List Fd} (step : ServerStep cfg s s')
    (after : s'.loop = .push task rest) :
    (s.loop = .push task rest ∧ s'.made = s.made) ∨
      (task = s.made ∧ s'.made = s.made + 1 ∧ s'.objects task ≠ none) := by
  cases step with
  | client _ step => cases step <;> exact .inl ⟨after,rfl⟩
  | thread _ step => cases step <;> exact .inl ⟨after,rfl⟩
  | loop _ step =>
    cases step with
    | onMessage => cases after; exact .inr ⟨rfl,rfl,by simp⟩
    | epollWait | roundOver | accept | acceptFails | unknown | closed | push | leave => cases after

theorem server_taken (step : ServerStep cfg s s') (c : Nat) : s'.taken c = s.taken c ∨
    ∃ i task later, ∃ got : Bytes, s.callAt (.running i) = some task ∧ task ≤ later ∧
      s.conOf later = some c ∧ s'.taken c = s.taken c ++ got.map fun b => (task,b) := by
  cases step with
  | client _ step => cases step <;> exact .inl rfl
  | loop _ step => cases step <;> exact .inl rfl
  | thread _ step =>
    cases step with
    | @process i task later job job' o event w running place object step =>
      by_cases same : c = o.con
      · subst same
        refine .inr ⟨i,task,later,bytesRead event,?_,place,?_,Function.update_self ..⟩
        · simp [State.callAt,running]
        · simp [State.conOf,object]
      · exact .inl (Function.update_of_ne same ..)
    | pop | finish | terminate | sigpipe => exact .inl rfl

theorem conOf_kept {task : Nat} (step : ServerStep cfg s s') (old : task < s.made) :
    s'.conOf task = s.conOf task := by
  cases server_objects step task with
  | kept same => rw [State.conOf,same,State.conOf]
  | constructed c new => omega
  | destroyed rest here leaves becomes =>
    rw [State.conOf,State.conOf,becomes]
    cases s.objects task <;> rfl

/-- Objects are numbered as they are made, and calls refer to objects that were made. -/
structure Sound (s : State) : Prop where
  fresh : ∀ task, s.made ≤ task → s.objects task = none
  known : ∀ task, s.Outstanding task → s.objects task ≠ none
  newest : ∀ task rest, s.loop = .push task rest →
    task + 1 = s.made ∧ s.objects task ≠ none ∧ ¬ s.Outstanding task
  readers : ∀ c, ∀ x ∈ s.taken c, x.1 < s.made

theorem Sound.old {task : Nat} (sound : Sound s) (made : s.objects task ≠ none) : task < s.made := by
  by_contra new
  exact made (sound.fresh task (by omega))

theorem not_outstanding_start (store : Store) (task : Nat) :
    ¬ (State.start store).Outstanding task := by
  rintro ⟨p,held⟩
  cases p <;> cases held

theorem sound_start (store : Store) : Sound (State.start store) :=
  ⟨fun _ _ => rfl,fun task held => absurd held (not_outstanding_start store task),nofun,nofun⟩

theorem made_kept {task : Nat} (step : ServerStep cfg s s') (made : s.objects task ≠ none) :
    s'.objects task ≠ none := by
  cases server_objects step task with
  | kept same => rwa [same]
  | constructed c new grown becomes => simp [becomes]
  | destroyed rest here leaves becomes => simpa [becomes] using made

theorem sound_step (sound : Sound s) (step : ServerStep cfg s s') : Sound s' := by
  have more := server_made step
  refine ⟨fun task new => ?_,fun task held => ?_,fun task rest here => ?_,fun c x inside => ?_⟩
  · cases server_objects step task with
    | kept same => rw [same]; exact sound.fresh task (by omega)
    | constructed c made grown => omega
    | destroyed rest here leaves becomes => rw [becomes,sound.fresh task (by omega)]; rfl
  · rcases outstanding_before step held with before | ⟨rest,here,_⟩
    · exact made_kept step (sound.known task before)
    · exact made_kept step (sound.newest task rest here).2.1
  · have posted (held : s'.Outstanding task) : s.Outstanding task := by
      rcases outstanding_before step held with before | ⟨_,_,leaves⟩
      · exact before
      · rw [here] at leaves
        cases leaves
    rcases server_push step here with ⟨before,same⟩ | ⟨rfl,grown,made⟩
    · obtain ⟨last,made,free⟩ := sound.newest task rest before
      exact ⟨by omega,made_kept step made,fun held => free (posted held)⟩
    · have free : ¬ s'.Outstanding s.made := fun held =>
        sound.known _ (posted held) (sound.fresh _ le_rfl)
      exact ⟨grown.symm,made,free⟩
  · rcases server_taken step c with same | ⟨i,task,later,got,running,_,_,grown⟩
    · rw [same] at inside
      exact (sound.readers c x inside).trans_le more
    · rw [grown,List.mem_append,List.mem_map] at inside
      rcases inside with old | ⟨_,_,rfl⟩
      · exact (sound.readers c x old).trans_le more
      · exact (sound.old (sound.known task ⟨_,running⟩)).trans_le more

theorem sound_run {store : Store} (run : Relation.ReflTransGen (ServerStep cfg) (.start store) s) : Sound s := by
  induction run with
  | refl => exact sound_start store
  | tail _ step ih => exact sound_step ih step

end steps

theorem updated_cell {β : Type*} {f : Nat → Option β} {i j : Nat} {cell : Option β} {x : β}
    (held : Function.update f i cell j = some x) : j = i ∧ cell = some x ∨ j ≠ i ∧ f j = some x := by
  by_cases same : j = i
  · subst same
    rw [Function.update_self] at held
    exact .inl ⟨rfl,held⟩
  · rw [Function.update_of_ne same] at held
    exact .inr ⟨same,held⟩

/-- A round that reports `c` alone has posted one more call, and its object is gone. -/
def State.posted (s : State) (c : Nat) : State := {s with
  made := s.made + 1, objects := Function.update s.objects s.made (some ⟨c,.destroyed⟩),
  loop := .waitEpollFd, que := s.que ++ [s.made]}

def State.popped (s : State) (i task : Nat) (md5 : Bytes → CusInfo.Digest) : State := {s with
  que := s.que.tail, threads := Function.update s.threads i (some (task,process md5))}

def State.took (s : State) (i task c : Nat) (b : UInt8) (rest : Bytes) (job : Job Unit) : State :=
  {s with
    threads := Function.update s.threads i (some (task,job)),
    conns := Function.update s.conns c {s.conns c with input := rest},
    taken := Function.update s.taken c (s.taken c ++ [(task,b)]),
    read := Function.update s.read task (s.read task ++ [b])}

section runs
variable {cfg : Config} {s : State}

theorem readable_listenfd (waiting : 0 < s.backlog) (registered : s.registered = []) (fd : Fd) :
    Readable cfg s fd ↔ fd = .listenfd := by
  cases fd <;> simp [Readable,waiting,registered]

theorem readable_connfd {c : Nat} (backlog : s.backlog = 0) (registered : s.registered = [c])
    (ready : (s.conns c).input ≠ [] ∨ (s.conns c).ended = true) (fd : Fd) :
    Readable cfg s fd ↔ fd = .connfd c := by
  cases fd with
  | listenfd => simp [Readable,backlog]
  | connfd d =>
    simp only [Readable,registered,List.mem_singleton,Fd.connfd.injEq]
    refine ⟨And.left,?_⟩
    rintro rfl
    exact ⟨rfl,ready.imp_right .inl⟩

/-- A round that reports the one thing that is ready. -/
theorem reported_alone {fd : Fd} (only : ∀ fd', Readable cfg s fd' ↔ fd' = fd) : Reported cfg s [fd] :=
  ⟨fun fd' inside => (only fd').mpr (List.mem_singleton.mp inside),List.nodup_singleton _,by simp [evtListSize],
    fun _ fd' ready => List.mem_singleton.mpr ((only fd').mp ready)⟩

theorem can_post {c : Nat} (up : s.terminated = false) (here : s.loop = .waitEpollFd)
    (only : ∀ fd, Readable cfg s fd ↔ fd = .connfd c) (unread : (s.conns c).input ≠ [])
    (notFull : s.que.length ≠ cfg.queSize) :
    Relation.ReflTransGen (ServerStep cfg) s (s.posted c) := by
  have found : c ∈ s.registered := ((only (.connfd c)).mpr rfl).1
  have reported : Reported cfg s [.connfd c] := by
    refine ⟨fun fd inside => ?_,List.nodup_singleton _,by simp [evtListSize],fun _ fd ready => ?_⟩
    · exact (only fd).mpr (List.mem_singleton.mp inside)
    · exact List.mem_singleton.mpr ((only fd).mp ready)
  refine .head (.loop up (.epollWait here reported)) ?_
  refine .head (.loop up (.onMessage rfl found (.data unread))) ?_
  refine .head (.loop up (.push rfl notFull)) ?_
  refine .head (.loop up (.leave rfl)) ?_
  refine .head (.loop up (.roundOver rfl)) ?_
  have destroyed : Function.update (Function.update s.objects s.made (some ⟨c,.live⟩)) s.made
      ((Function.update s.objects s.made (some ⟨c,.live⟩) s.made).map Object.destroy) =
      Function.update s.objects s.made (some ⟨c,.destroyed⟩) := by
    simp [Object.destroy]
  simp only [destroyed]
  exact .refl

theorem can_pop {i task : Nat} {rest : List Nat} (up : s.terminated = false) (thread : i < cfg.threadNum)
    (idle : s.threads i = none) (first : s.que = task :: rest) :
    ServerStep cfg s (s.popped i task cfg.md5) := by
  unfold State.popped
  rw [first]
  exact .thread up (.pop thread idle first)

theorem process_begins (md5 : Bytes → CusInfo.Digest) : ∃ job : ReadResult → Job Unit,
    ∀ {W : Type} (H : Handler signature W) w, Step H (process md5) w none (.call (.read 40) job) w := by
  have round {α σ β : Type} {body : σ → Prog signature Halt (σ ⊕ β)} {start : σ} {k : β → Job α}
      {p q : Job α} {W : Type} (H : Handler signature W) (w : W) (is : p = .loop body start k)
      (becomes : (body start).bind (Sum.elim (fun next => .loop body next k) k) = q) :
      Step H p w none q w := by
    subst is becomes
    exact .loop
  exact ⟨_,fun H w => round H w rfl rfl⟩

theorem can_read {i task later c : Nat} {status : Status} {b : UInt8} {rest : Bytes}
    {job : ReadResult → Job Unit} (up : s.terminated = false)
    (running : s.threads i = some (task,process cfg.md5))
    (begins : ∀ w, Step (Sys cfg.env task) (process cfg.md5) w none (.call (.read 40) job) w)
    (place : task ≤ later) (object : s.objects later = some ⟨c,status⟩) (input : (s.conns c).input = b :: rest) :
    Relation.ReflTransGen (ServerStep cfg) s (s.took i task c b rest (job (.data [b]))) := by
  have first : ServerStep cfg s {s with
      threads := Function.update s.threads i (some (task,.call (.read 40) job))} := by
    have step := ServerStep.thread up (.process running place object (begins _))
    simpa [bytesRead] using step
  have answered : Sys cfg.env task ⟨s.conns c,s.store⟩ (.read 40) (.data [b])
      ⟨{s.conns c with input := rest},s.store⟩ := ⟨by simp,by simp,rest,input,rfl⟩
  have second : ServerStep cfg {s with
      threads := Function.update s.threads i (some (task,.call (.read 40) job))} _ :=
    .thread up (@ThreadStep.process cfg _ i task later _ _ ⟨c,status⟩ _ _ (Function.update_self ..)
      place object (.call answered))
  refine .head first (.single ?_)
  simpa [bytesRead,State.took] using second

theorem can_take {i task later c : Nat} {status : Status} {b : UInt8} {rest : Bytes}
    (up : s.terminated = false) (running : s.threads i = some (task,process cfg.md5)) (place : task ≤ later)
    (object : s.objects later = some ⟨c,status⟩) (input : (s.conns c).input = b :: rest) :
    ∃ job, Relation.ReflTransGen (ServerStep cfg) s (s.took i task c b rest job) := by
  obtain ⟨job,begins⟩ := process_begins cfg.md5
  exact ⟨_,can_read up running (begins _) place object input⟩

/-- A task can go on by itself; what its steps keep of the bytes it has read holds at the end. -/
theorem can_process {K : Bytes → World → Prop} {i task c : Nat} {status : Status} {job job' : Job Unit}
    {w : World} (up : s.terminated = false) (running : s.threads i = some (task,job))
    (object : s.objects task = some ⟨c,status⟩) (start : K (s.read task) ⟨s.conns c,s.store⟩)
    (keeps : ∀ read event (p p' : Job Unit) v v', K read v → Step (Sys cfg.env task) p v event p' v' →
      K (read ++ bytesRead event) v')
    (reached : Reaches (Sys cfg.env task) job ⟨s.conns c,s.store⟩ job' w) :
    ∃ taken read, K read w ∧ Relation.ReflTransGen (ServerStep cfg) s {s with
      threads := Function.update s.threads i (some (task,job')), conns := Function.update s.conns c w.conn,
      store := w.store, taken := Function.update s.taken c taken, read := Function.update s.read task read} := by
  have along {q : Job Unit × World} (reached : Relation.ReflTransGen (fun before after : Job Unit × World =>
      ∃ event, Step (Sys cfg.env task) before.1 before.2 event after.1 after.2) (job,⟨s.conns c,s.store⟩) q) :
      ∃ taken read, K read q.2 ∧ Relation.ReflTransGen (ServerStep cfg) s {s with
        threads := Function.update s.threads i (some (task,q.1)), conns := Function.update s.conns c q.2.conn,
        store := q.2.store, taken := Function.update s.taken c taken,
        read := Function.update s.read task read} := by
    induction reached with
    | refl =>
      refine ⟨s.taken c,s.read task,start,?_⟩
      rw [← running,Function.update_eq_self,Function.update_eq_self,Function.update_eq_self,
        Function.update_eq_self]
    | @tail before after _ stepped ih =>
      obtain ⟨p,v⟩ := before
      obtain ⟨p',v'⟩ := after
      obtain ⟨taken,read,holds,run⟩ := ih
      obtain ⟨event,step⟩ := stepped
      have next : ServerStep cfg {s with
          threads := Function.update s.threads i (some (task,p)), conns := Function.update s.conns c v.conn,
          store := v.store, taken := Function.update s.taken c taken, read := Function.update s.read task read} _ :=
        .thread up (@ThreadStep.process cfg _ i task task p p' ⟨c,status⟩ event v' (Function.update_self ..) le_rfl
          object (by simpa using step))
      refine ⟨taken ++ (bytesRead event).map fun b => (task,b),read ++ bytesRead event,
        keeps read event p p' v v' holds step,run.tail ?_⟩
      simpa using next
  exact along reached

end runs

section sample

def sampleConfig : Config := ⟨10,100,calm [],fun _ _ => 0⟩

def sampleStore : Store := ⟨⟨fun _ => none,[]⟩,[],fun _ => none⟩

def sampleConnected : State := {State.start sampleStore with
  accepted := 1, registered := [0],
  conns := Function.update (fun _ => ⟨[],false,[]⟩) 0 ⟨CusInfo.recordOf (ascii "s1") 1,false,[]⟩}

theorem sample_readable {s : State} (backlog : s.backlog = 0) (registered : s.registered = [0])
    (unread : (s.conns 0).input ≠ []) (fd : Fd) :
    Readable sampleConfig s fd ↔ fd = .connfd 0 := by
  cases fd with
  | listenfd => simp [Readable,backlog]
  | connfd c =>
    simp only [Readable,registered,List.mem_singleton,Fd.connfd.injEq]
    exact ⟨And.left,fun same => by subst same; exact ⟨rfl,.inl unread⟩⟩

theorem sample_connected :
    Relation.ReflTransGen (ServerStep sampleConfig) (State.start sampleStore) sampleConnected := by
  have reported : Reported sampleConfig {State.start sampleStore with backlog := 1} [.listenfd] := by
    refine ⟨by simp [Readable],List.nodup_singleton _,by simp [evtListSize],fun _ fd ready => ?_⟩
    cases fd with
    | listenfd => simp
    | connfd c => exact absurd ready.1 (by simp [State.start])
  refine .head (.client rfl .connect) ?_
  refine .head (.loop rfl (.epollWait rfl reported)) ?_
  refine .head (.loop rfl (.accept rfl Nat.one_pos)) ?_
  refine .head (.loop rfl (.roundOver rfl)) ?_
  exact .single (.client rfl (@ClientStep.send _ 0 _ Nat.one_pos rfl))

end sample

end FilediskServer.FileServer
