import FilediskServer.FileServer

/-! Workers that wait for bytes. A task reads from a blocking socket without a time limit, so a
client that says nothing keeps its worker, and as many of them as there are workers keep the server. -/
namespace FilediskServer.FileServer
open Interaction Bytes CusInfo Calls SocketIO FileTask

def Reads {W : Type} : W → Call → Prop := fun _ c => ∃ n, c = .read n

/-- A connection on which nothing comes. -/
def Silent : Handler signature Unit := fun _ c r _ =>
  match c, r with
  | .read _, .eintr => True
  | _, _ => False

/-- As long as nothing comes, all the task does is to read. -/
def Waiting (job : Job Unit) : Prop := Wp Silent Reads job (fun _ _ => False) ()

/-- A connection on which so many bytes have come, fewer than a record. -/
def Short : Handler signature Nat := fun k c r k' =>
  match c, r with
  | .read _, .data b => k' = k + b.length ∧ k' < sizeofDatauuid
  | .read _, .eintr => k' = k
  | _, _ => False

section tasks
variable {md5 : Bytes → Digest} {job job' : Job Unit}

theorem short_process : Wp Short Reads (process md5) (fun _ _ => False) 0 := by
  apply wp_bind
  apply wp_bind
  -- What is left to read and what has come make up the record.
  refine ⟨fun s k => s.1 = sizeofDatauuid - k ∧ k < sizeofDatauuid,⟨rfl,by decide⟩,?_⟩
  rintro ⟨left,buf⟩ k ⟨count,more⟩
  dsimp only at count ⊢
  rw [if_pos (by omega)]
  refine ⟨⟨_,rfl⟩,fun r k' answered => ?_⟩
  match r with
  | .data b =>
    obtain ⟨rfl,fewer⟩ := answered
    refine ⟨?_,fewer⟩
    push_cast
    omega
  | .eintr =>
    obtain rfl := answered
    exact ⟨count,more⟩
  | .eof => cases answered
  | .failed => cases answered

theorem waiting_of_short {k : Nat} (holds : Wp Short Reads job (fun _ _ => False) k) : Waiting job := by
  have alike (k : Nat) (u : Unit) (c : Call) (_ : True) (reads : Reads k c) :
      Reads u c ∧ ∀ r u', Silent u c r u' → ∃ k', Short k c r k' ∧ True := by
    refine ⟨reads,fun r u' answered => ?_⟩
    obtain ⟨n,rfl⟩ := reads
    match r with
    | .eintr => exact ⟨k,rfl,trivial⟩
    | .data b => cases answered
    | .eof => cases answered
    | .failed => cases answered
  apply wp_mono _ (wp_transfer (R := fun _ _ => True) alike holds trivial)
  rintro out u ⟨_,_,never⟩
  exact never

theorem waiting_process : Waiting (process md5) := waiting_of_short short_process

theorem waiting_begun {job : ReadResult → Job Unit} {b : UInt8}
    (begins : ∀ {W : Type} (H : Handler signature W) w, Step H (process md5) w none (.call (.read 40) job) w) :
    Waiting (job (.data [b])) := by
  have first := (wp_step (begins Short 0) short_process).2
  have fewer : 1 < sizeofDatauuid := by decide
  exact waiting_of_short (first.2 (.data [b]) 1 ⟨rfl,fewer⟩)

/-- A task that waits goes on waiting, and nothing happens. -/
theorem waiting_step {env : Env} {me : Nat} {w w' : World} {event : Option (Event signature)}
    (waiting : Waiting job) (input : w.conn.input = []) (open' : w.conn.ended = false)
    (reads : ¬ env.readFails w.conn) (step : Step (Sys env me) job w event job' w') :
    w' = w ∧ bytesRead event = [] ∧ Waiting job' := by
  have answered {c : Call} {r : c.Res} {w' : World} (made : ∃ n, c = .read n) (answer : Sys env me w c r w') :
      w' = w ∧ bytesRead (some ⟨c,r⟩) = [] ∧ Silent () c r () := by
    obtain ⟨n,rfl⟩ := made
    match r with
    | .eintr => exact ⟨answer,rfl,trivial⟩
    | .data b =>
      obtain ⟨some,_,rest,split,_⟩ := answer
      rw [input] at split
      exact absurd (List.append_eq_nil_iff.mp split.symm).1 some
    | .eof => exact absurd answer.2.1 (by simp [open'])
    | .failed => exact absurd answer.1 reads
  cases step with
  | call answer =>
    obtain ⟨same,none,silent⟩ := answered waiting.1 answer
    exact ⟨same,none,waiting.2 _ _ silent⟩
  | loop => exact ⟨rfl,rfl,(wp_step (Step.loop (w := ())) waiting).2⟩

theorem not_waiting_ret (a : Unit) : ¬ Waiting (.ret a) := id

theorem not_waiting_throw (e : Halt) : ¬ Waiting (.throw e) := id

theorem not_waiting_write (source : Source) (left : Nat) (k : WriteResult → Job Unit) :
    ¬ Waiting (.call (.write source left) k) := by
  rintro ⟨⟨_,same⟩,-⟩
  cases same

end tasks

section servers
variable {cfg : Config} {held : Set Nat} {s s' : State}

/-- Where every worker has its task, the task of a thread is that of a worker. -/
theorem worker_of_running {P : Nat → Nat → Job Unit → Prop}
    (workers : ∀ i, i < cfg.threadNum → ∃ task job, s.threads i = some (task,job) ∧ P i task job)
    (pool : ∀ i, cfg.threadNum ≤ i → s.threads i = none) {i task : Nat} {job : Job Unit}
    (running : s.threads i = some (task,job)) : i < cfg.threadNum ∧ P i task job := by
  by_cases worker : i < cfg.threadNum
  · obtain ⟨task',job',same,holds⟩ := workers i worker
    rw [running] at same
    cases same
    exact ⟨worker,holds⟩
  · rw [pool i (by omega)] at running
    cases running

/-- A task that goes on leaves the threads beyond the pool as they are. -/
theorem pool_kept (pool : ∀ i, cfg.threadNum ≤ i → s.threads i = none) {i : Nat} {x y : Nat × Job Unit}
    (running : s.threads i = some x) {j : Nat} (spare : cfg.threadNum ≤ j) :
    Function.update s.threads i (some y) j = none := by
  have other : j ≠ i := by
    rintro rfl
    rw [pool j spare] at running
    cases running
  rw [Function.update_of_ne other,pool j spare]

/-- The loop is at a full queue. -/
def Jammed (cfg : Config) (s : State) : Prop :=
  ∃ task rest, s.loop = .push task rest ∧ s.que.length = cfg.queSize

/-- The loop is at a full queue and all workers are at tasks that wait. Every task was made for a
connection of `held`, and these have nothing to read. -/
structure Starved (cfg : Config) (held : Set Nat) (s : State) : Prop where
  sound : Sound s
  up : s.terminated = false
  jammed : Jammed cfg s
  silent : ∀ c ∈ held, (s.conns c).input = [] ∧ (s.conns c).ended = false ∧ ¬ cfg.env.readFails (s.conns c)
  mine : ∀ task c, s.conOf task = some c → c ∈ held
  workers : ∀ i, i < cfg.threadNum → ∃ task job, s.threads i = some (task,job) ∧ Waiting job
  pool : ∀ i, cfg.threadNum ≤ i → s.threads i = none

/-- A step after which the clients of `held` still have said nothing. -/
def Hushed (cfg : Config) (held : Set Nat) (s s' : State) : Prop :=
  ServerStep cfg s s' ∧ ∀ c ∈ held, (s'.conns c).input = [] ∧ (s'.conns c).ended = false

/-- Nobody is accepted or served. -/
structure Stalled (s s' : State) : Prop where
  accepted : s'.accepted = s.accepted
  loop : s'.loop = s.loop
  que : s'.que = s.que
  store : s'.store = s.store
  output : ∀ c, (s'.conns c).output = (s.conns c).output
  unread : ∀ c, (s.conns c).input <+: (s'.conns c).input
  taken : s'.taken = s.taken
  serving : ∀ i, s'.callAt (.running i) = s.callAt (.running i)

instance : IsPreorder State Stalled where
  refl _ := ⟨rfl,rfl,rfl,rfl,fun _ => rfl,fun _ => List.prefix_refl _,rfl,fun _ => rfl⟩
  trans _ _ _ first second :=
    ⟨second.accepted.trans first.accepted,second.loop.trans first.loop,second.que.trans first.que,
      second.store.trans first.store,fun c => (second.output c).trans (first.output c),
      fun c => (first.unread c).trans (second.unread c),second.taken.trans first.taken,
      fun i => (second.serving i).trans (first.serving i)⟩

theorem starved_busy (starved : Starved cfg held s) {i task : Nat} {job : Job Unit}
    (running : s.threads i = some (task,job)) : Waiting job :=
  (worker_of_running (P := fun _ _ => Waiting) starved.workers starved.pool running).2

/-- All a worker does is to go on waiting. -/
theorem starved_thread (starved : Starved cfg held s) (step : ThreadStep cfg s s') :
    ∃ i task job job', s.threads i = some (task,job) ∧ Waiting job' ∧
      s' = {s with threads := Function.update s.threads i (some (task,job'))} := by
  cases step with
  | pop thread idle =>
    obtain ⟨_,_,busy,_⟩ := starved.workers _ thread
    rw [idle] at busy
    cases busy
  | @process i task later job job' o event w running place object step =>
    have waiting := starved_busy starved running
    have mem := starved.mine later o.con (by simp [State.conOf,object])
    obtain ⟨empty,open',reads⟩ := starved.silent _ mem
    obtain ⟨rfl,none,waiting'⟩ := waiting_step waiting empty open' reads step
    exact ⟨i,task,job,job',running,waiting',by simp [none]⟩
  | finish running => exact absurd (starved_busy starved running) (not_waiting_ret _)
  | terminate running => exact absurd (starved_busy starved running) (not_waiting_throw _)
  | sigpipe running => exact absurd (starved_busy starved running) (not_waiting_write _ _ _)

/-- The loop does not move. -/
theorem starved_loop (starved : Starved cfg held s) (step : LoopStep cfg s s') : False := by
  obtain ⟨task,rest,here,full⟩ := starved.jammed
  cases step with
  | push _ notFull => exact absurd full notFull
  | epollWait at' | roundOver at' | accept at' | acceptFails at' | unknown at' | closed at' | onMessage at'
    | leave at' =>
    rw [here] at at'
    cases at'

theorem starved_stalled (starved : Starved cfg held s) (step : ServerStep cfg s s') : Stalled s s' := by
  have updated {c : Nat} {conn : Conn} {closed : Nat → Bool} (output : conn.output = (s.conns c).output)
      (unread : (s.conns c).input <+: conn.input) :
      Stalled s {s with conns := Function.update s.conns c conn, closed := closed} := by
    refine ⟨rfl,rfl,rfl,rfl,fun d => ?_,fun d => ?_,rfl,fun _ => rfl⟩ <;> by_cases own : d = c
    · subst own; simpa using output
    · simp [own]
    · subst own; simpa using unread
    · simp [own]
  cases step with
  | client _ step =>
    cases step with
    | connect => exact ⟨rfl,rfl,rfl,rfl,fun _ => rfl,fun _ => List.prefix_refl _,rfl,fun _ => rfl⟩
    | send => exact updated rfl (List.prefix_append _ _)
    | shut | close => exact updated rfl (List.prefix_refl _)
  | loop _ step => exact (starved_loop starved step).elim
  | thread _ step =>
    obtain ⟨i,task,job,job',running,_,rfl⟩ := starved_thread starved step
    refine ⟨rfl,rfl,rfl,rfl,fun _ => rfl,fun _ => List.prefix_refl _,rfl,fun j => ?_⟩
    by_cases own : j = i
    · subst own
      simp [State.callAt,running]
    · simp [State.callAt,own]

theorem conn_eq {conn conn' : Conn} (input : conn.input = conn'.input) (ended : conn.ended = conn'.ended)
    (output : conn.output = conn'.output) : conn = conn' := by
  cases conn
  cases conn'
  cases input
  cases ended
  cases output
  rfl

theorem starved_step (starved : Starved cfg held s) (step : Hushed cfg held s s') : Starved cfg held s' := by
  obtain ⟨step,hush⟩ := step
  have stalled := starved_stalled starved step
  have sound := sound_step starved.sound step
  have jammed : Jammed cfg s' := by
    obtain ⟨task,rest,here,full⟩ := starved.jammed
    exact ⟨task,rest,stalled.loop.trans here,by rw [stalled.que,full]⟩
  have silent (c : Nat) (mem : c ∈ held) : (s'.conns c).input = [] ∧ (s'.conns c).ended = false ∧
      ¬ cfg.env.readFails (s'.conns c) := by
    obtain ⟨empty,open',reads⟩ := starved.silent c mem
    obtain ⟨empty',open''⟩ := hush c mem
    have same : s'.conns c = s.conns c :=
      conn_eq (empty'.trans empty.symm) (open''.trans open'.symm) (stalled.output c)
    rw [same]
    exact ⟨empty,open',reads⟩
  cases step with
  | client up step =>
    cases step <;> exact ⟨sound,up,jammed,silent,starved.mine,starved.workers,starved.pool⟩
  | loop _ step => exact (starved_loop starved step).elim
  | thread up step =>
    obtain ⟨i,task,job,job',running,waiting,rfl⟩ := starved_thread starved step
    refine ⟨sound,up,jammed,silent,starved.mine,fun j worker => ?_,
      fun j spare => pool_kept starved.pool running spare⟩
    by_cases own : j = i
    · subst own
      exact ⟨task,job',Function.update_self ..,waiting⟩
    · simpa [own] using starved.workers j worker

theorem starved_run (starved : Starved cfg held s) (run : Relation.ReflTransGen (Hushed cfg held) s s') :
    Starved cfg held s' ∧ Stalled s s' := by
  induction run with
  | refl => exact ⟨starved,refl_of Stalled _⟩
  | tail _ step ih =>
    exact ⟨starved_step ih.1 step,trans_of Stalled ih.2 (starved_stalled ih.1 step.1)⟩

/-- The loop has made a task for `c`, which it is about to add. -/
def State.pushing (s : State) (c : Nat) : State := {s with
  made := s.made + 1, objects := Function.update s.objects s.made (some ⟨c,.live⟩), loop := .push s.made []}

theorem can_begin {c : Nat} (up : s.terminated = false) (here : s.loop = .waitEpollFd)
    (only : ∀ fd, Readable cfg s fd ↔ fd = .connfd c) (unread : (s.conns c).input ≠ []) :
    Relation.ReflTransGen (ServerStep cfg) s (s.pushing c) := by
  have found : c ∈ s.registered := ((only (.connfd c)).mpr rfl).1
  have waits := ServerStep.loop up (.epollWait here (reported_alone only))
  exact .head waits (.single (.loop up (.onMessage rfl found (.data unread))))

/-- One client has sent one byte, which no one has read; so many workers are at tasks for it, and so
many more tasks are queued. -/
structure Crowded (cfg : Config) (store : Store) (b : UInt8) (workers queued : Nat) (s : State) : Prop where
  run : Relation.ReflTransGen (ServerStep cfg) (.start store) s
  up : s.terminated = false
  loop : s.loop = .waitEpollFd
  backlog : s.backlog = 0
  accepted : s.accepted = 1
  registered : s.registered = [0]
  conns : s.conns = Function.update (fun _ => ⟨[],false,[]⟩) 0 ⟨[b],false,[]⟩
  taken : s.taken = fun _ => []
  store : s.store = store
  queued : s.que.length = queued
  mine : ∀ task c, s.conOf task = some c → c = 0
  busy : ∀ i, i < workers → ∃ task, s.threads i = some (task,process cfg.md5)
  idle : ∀ i, workers ≤ i → s.threads i = none

section crowds
variable {store : Store} {b : UInt8} {workers queued : Nat}

theorem crowded_readable (crowded : Crowded cfg store b workers queued s) (fd : Fd) :
    Readable cfg s fd ↔ fd = .connfd 0 := by
  exact readable_connfd crowded.backlog crowded.registered (.inl (by simp [crowded.conns])) fd

theorem crowded_first (b : UInt8) : ∃ s, Crowded cfg store b 0 0 s := by
  have reported : Reported cfg {State.start store with backlog := 1} [.listenfd] := by
    refine ⟨by simp [Readable],List.nodup_singleton _,by simp [evtListSize],fun _ fd ready => ?_⟩
    cases fd with
    | listenfd => simp
    | connfd c => exact absurd ready.1 (by simp [State.start])
  refine ⟨{State.start store with
    accepted := 1, registered := [0],
    conns := Function.update (fun _ => ⟨[],false,[]⟩) 0 ⟨[b],false,[]⟩},?_,rfl,rfl,rfl,rfl,rfl,rfl,rfl,rfl,rfl,
    fun _ _ con => (Option.some_ne_none _ con.symm).elim,fun _ none => absurd none (Nat.not_lt_zero _),fun _ _ => rfl⟩
  refine .head (.client rfl .connect) ?_
  refine .head (.loop rfl (.epollWait rfl reported)) ?_
  refine .head (.loop rfl (.accept rfl Nat.one_pos)) ?_
  refine .head (.loop rfl (.roundOver rfl)) ?_
  exact .single (.client rfl (@ClientStep.send _ 0 _ Nat.one_pos rfl))

/-- Where an object is made for the one connection, all are for it. -/
theorem made_mine {status : Status} {task c : Nat} (mine : ∀ task c, s.conOf task = some c → c = 0)
    (con : ((Function.update s.objects s.made (some ⟨0,status⟩)) task).map Object.con = some c) : c = 0 := by
  by_cases new : task = s.made
  · subst new
    simpa [eq_comm] using con
  · rw [Function.update_of_ne new] at con
    exact mine task c con

/-- The byte is reported until it is read. -/
theorem crowded_post (crowded : Crowded cfg store b workers queued s) (room : queued < cfg.queSize) :
    Crowded cfg store b workers (queued + 1) (s.posted 0) := by
  have notFull : s.que.length ≠ cfg.queSize := by rw [crowded.queued]; omega
  have posts := can_post crowded.up crowded.loop (crowded_readable crowded) (by simp [crowded.conns]) notFull
  refine ⟨crowded.run.trans posts,crowded.up,rfl,crowded.backlog,crowded.accepted,crowded.registered,
    crowded.conns,crowded.taken,crowded.store,?_,fun task c con => made_mine crowded.mine con,crowded.busy,
    crowded.idle⟩
  simp [State.posted,crowded.queued]

theorem crowded_pop (crowded : Crowded cfg store b workers (queued + 1) s) (spare : workers < cfg.threadNum) :
    ∃ task, Crowded cfg store b (workers + 1) queued (s.popped workers task cfg.md5) := by
  obtain ⟨task,rest,first⟩ := List.exists_cons_of_length_eq_add_one crowded.queued
  have pops := can_pop crowded.up spare (crowded.idle workers le_rfl) first
  refine ⟨task,crowded.run.tail pops,crowded.up,crowded.loop,crowded.backlog,crowded.accepted,crowded.registered,
    crowded.conns,crowded.taken,crowded.store,?_,crowded.mine,fun i worker => ?_,fun i idle => ?_⟩
  · simp [State.popped,crowded.queued]
  · by_cases own : i = workers
    · subst own
      exact ⟨task,Function.update_self ..⟩
    · obtain ⟨other,running⟩ := crowded.busy i (by omega)
      exact ⟨other,by simp [State.popped,own,running]⟩
  · rw [← crowded.idle i (by omega)]
    exact Function.update_of_ne (by omega) ..

theorem crowded_all (store : Store) (b : UInt8) (room : 0 < cfg.queSize) :
    ∃ s, Crowded cfg store b cfg.threadNum cfg.queSize s := by
  have workers (k : Nat) (bound : k ≤ cfg.threadNum) : ∃ s, Crowded cfg store b k 0 s := by
    induction k with
    | zero => exact crowded_first b
    | succ k ih =>
      obtain ⟨s,crowded⟩ := ih (by omega)
      obtain ⟨task,popped⟩ := crowded_pop (crowded_post crowded room) bound
      exact ⟨_,popped⟩
  have queue (k : Nat) (bound : k ≤ cfg.queSize) : ∃ s, Crowded cfg store b cfg.threadNum k s := by
    induction k with
    | zero => exact workers _ le_rfl
    | succ k ih =>
      obtain ⟨s,crowded⟩ := ih (by omega)
      exact ⟨_,crowded_post crowded bound⟩
  exact queue _ le_rfl

end crowds

theorem starved_crowd {store : Store} {b : UInt8} (crowded : Crowded cfg store b cfg.threadNum cfg.queSize s)
    (workers : 0 < cfg.threadNum) (quiet : ¬ cfg.env.readFails ⟨[],false,[]⟩) :
    ∃ s' task, Relation.ReflTransGen (ServerStep cfg) (.start store) s' ∧ Starved cfg {0} s' ∧
      s'.backlog = 0 ∧ s'.accepted = 1 ∧ s'.store = store ∧ (∀ c, s'.conns c = ⟨[],false,[]⟩) ∧
      ∀ c, s'.taken c = if c = 0 then [(task,b)] else [] := by
  obtain ⟨first,running⟩ := crowded.busy 0 workers
  obtain ⟨job,begins⟩ := process_begins cfg.md5
  have unread : (s.conns 0).input = [b] := by simp [crowded.conns]
  have known := (sound_run crowded.run).known first ⟨.running 0,by simp [State.callAt,running]⟩
  have old := (sound_run crowded.run).old known
  -- The loop comes to the full queue, and then the byte is read.
  have jams := can_begin crowded.up crowded.loop (crowded_readable crowded) (by simp [unread])
  have object : (s.pushing 0).objects s.made = some ⟨0,.live⟩ := Function.update_self ..
  have reads := can_read (s := s.pushing 0) crowded.up running (begins _) old.le object unread
  have run := crowded.run.trans (jams.trans reads)
  have still (c : Nat) : ((s.pushing 0).took 0 first 0 b [] (job (.data [b]))).conns c = ⟨[],false,[]⟩ := by
    simp [State.took,State.pushing,crowded.conns]
  refine ⟨_,first,run,⟨sound_run run,crowded.up,⟨_,_,rfl,crowded.queued⟩,fun c mem => ?_,
    fun task c con => made_mine crowded.mine con,fun i worker => ?_,fun i spare => ?_⟩,
    crowded.backlog,crowded.accepted,crowded.store,still,fun c => ?_⟩
  · rw [still]
    exact ⟨rfl,rfl,quiet⟩
  · by_cases own : i = 0
    · subst own
      exact ⟨first,job (.data [b]),by simp [State.took],waiting_begun begins⟩
    · obtain ⟨task,running⟩ := crowded.busy i worker
      exact ⟨task,_,(Function.update_of_ne own ..).trans running,waiting_process⟩
  · rw [← crowded.idle i spare]
    exact Function.update_of_ne (by omega) ..
  · by_cases own : c = 0
    · subst own
      simp [State.took,State.pushing,crowded.taken]
    · simp [State.took,State.pushing,crowded.taken,own]

/-- One byte of one client can take all the workers and fill the queue: the byte has been read, and the
loop is at the full queue. From then on, as long as this client neither sends nor closes, nobody is
accepted, read from or answered. -/
theorem one_byte_stalls (workers : 0 < cfg.threadNum) (room : 0 < cfg.queSize)
    (quiet : ¬ cfg.env.readFails ⟨[],false,[]⟩) (store : Store) (b : UInt8) :
    ∃ s task, Relation.ReflTransGen (ServerStep cfg) (.start store) s ∧ s.backlog = 0 ∧ s.accepted = 1 ∧
      Jammed cfg s ∧ (∀ i, i < cfg.threadNum → s.threads i ≠ none) ∧
      (∀ c, (s.conns c).input = [] ∧ s.taken c = if c = 0 then [(task,b)] else []) ∧
      ∀ s', Relation.ReflTransGen (Hushed cfg {0}) s s' → s'.terminated = false ∧ s'.accepted = 1 ∧
        s'.loop = s.loop ∧ s'.que = s.que ∧ s'.store = store ∧ s'.taken = s.taken ∧
        ∀ c, (s'.conns c).output = [] := by
  obtain ⟨_,crowded⟩ := crowded_all store b room
  obtain ⟨s,task,run,starved,backlog,accepted,stored,still,taken⟩ := starved_crowd crowded workers quiet
  refine ⟨s,task,run,backlog,accepted,starved.jammed,fun i worker => ?_,fun c => ?_,fun s' later => ?_⟩
  · obtain ⟨_,_,running,_⟩ := starved.workers i worker
    simp [running]
  · rw [still]
    exact ⟨rfl,taken c⟩
  · obtain ⟨starved',stalled⟩ := starved_run starved later
    exact ⟨starved'.up,stalled.accepted.trans accepted,stalled.loop,stalled.que,stalled.store.trans stored,
      stalled.taken,fun c => by rw [stalled.output,still]⟩

theorem sample_one_byte_stalls : ∃ s task, Relation.ReflTransGen (ServerStep sampleConfig) (.start sampleStore) s ∧
    s.backlog = 0 ∧ s.accepted = 1 ∧ Jammed sampleConfig s ∧ (∀ i, i < 10 → s.threads i ≠ none) ∧
    (∀ c, (s.conns c).input = [] ∧ s.taken c = if c = 0 then [(task,115)] else []) ∧
    ∀ s', Relation.ReflTransGen (Hushed sampleConfig {0}) s s' → s'.terminated = false ∧ s'.accepted = 1 ∧
      s'.loop = s.loop ∧ s'.que = s.que ∧ s'.store = sampleStore ∧ s'.taken = s.taken ∧
      ∀ c, (s'.conns c).output = [] :=
  one_byte_stalls (by decide) (by decide) not_false sampleStore 115

end servers

end FilediskServer.FileServer
