import FilediskServer.EventLoop
import FilediskServer.FileServer

/-! The loop of the server goes by connections, `EventLoop` by the numbers the kernel gives them.
The two agree, although a number comes back once its connection is closed. -/
namespace FilediskServer.Dispatch
open Calls FileServer
open EventLoop (Event Callback LifeCycle handleEvent handleNewConnection handleMessage)

def fdOf (listenfd : Int) (number : Nat → Int) : Fd → Int
  | .listenfd => listenfd
  | .connfd c => number c

/-- What is left of a round. -/
def left : Loop → List Fd
  | .waitEpollFd => []
  | .events rest | .push _ rest | .leave _ rest => rest

/-- The entry of `_evtList` behind a step, with the answers of the kernel: `accept` returns the number of
a new connection or -1, the peek of `isClosed` 0 where no object is made. -/
structure Entry (listenfd : Int) (number : Nat → Int) (s s' : State) (ready : Fd) (e : Event) : Prop where
  fd : e.fd = fdOf listenfd number ready
  epollin : e.epollin = true
  connfd : e.connfd = if s'.accepted = s.accepted then -1 else number s.accepted
  peeked : ∀ c, ready = .connfd c → (e.peeked = 0 ↔ s'.made = s.made)

/-- The next number the kernel gives is no number in use. -/
structure Fresh (listenfd : Int) (number : Nat → Int) (s : State) : Prop where
  nonneg : 0 ≤ number s.accepted
  notListening : number s.accepted ≠ listenfd
  unused : ∀ c ∈ s.registered, number c ≠ number s.accepted

/-- A run of the server, with the entries its loop has handled. -/
inductive Heard (cfg : Config) (listenfd : Int) (number : Nat → Int) (store : Store) : List Event → State → Prop
  | start : Heard cfg listenfd number store [] (.start store)
  | aside {events : List Event} {s s' : State} (heard : Heard cfg listenfd number store events s)
      (step : ServerStep cfg s s') (stays : ∀ fd rest, s.loop = .events (fd :: rest) → s'.loop = s.loop) :
      Heard cfg listenfd number store events s'
  | entry {events : List Event} {s s' : State} {fd : Fd} {rest : List Fd} {e : Event}
      (heard : Heard cfg listenfd number store events s) (step : ServerStep cfg s s')
      (here : s.loop = .events (fd :: rest)) (moves : s'.loop ≠ s.loop) (entry : Entry listenfd number s s' fd e)
      (fresh : s'.accepted ≠ s.accepted → Fresh listenfd number s) :
      Heard cfg listenfd number store (events ++ [e]) s'

/-- `_conns` has the registered connections, by their numbers. The callbacks are those of the server:
a message for each object that was made, for its connection, and one close for each connection that
is registered no more. -/
structure Dispatched (listenfd : Int) (number : Nat → Int) (e : EventLoop.State) (s : State) : Prop where
  made : e.made = s.accepted
  conns : ∀ fd c, e.conns fd = some c ↔ c ∈ s.registered ∧ number c = fd
  messages : (e.fired.filter (·.2 = .message)).map Prod.fst = (List.range s.made).filterMap s.conOf
  closed : ∀ c, (c,.close) ∈ e.fired ↔ c < s.accepted ∧ c ∉ s.registered
  notListening : ∀ c ∈ s.registered, number c ≠ listenfd
  old : ∀ c ∈ s.registered, c < s.accepted
  once : s.registered.Nodup
  pending : (left s.loop).Nodup ∧ ∀ c, .connfd c ∈ left s.loop → c ∈ s.registered

section steps
variable {cfg : Config} {listenfd : Int} {number : Nat → Int} {store : Store} {s s' : State} {e : EventLoop.State}
  {ev : Event} {events : List Event}

theorem dispatched_start (store : Store) :
    Dispatched listenfd number (EventLoop.start listenfd) (.start store) where
  made := rfl
  conns _ _ := ⟨nofun,fun ⟨inside,_⟩ => absurd inside List.not_mem_nil⟩
  messages := rfl
  closed c := ⟨fun inside => absurd inside List.not_mem_nil,fun ⟨before,_⟩ => absurd before (Nat.not_lt_zero c)⟩
  notListening _ inside := absurd inside List.not_mem_nil
  old _ inside := absurd inside List.not_mem_nil
  once := .nil
  pending := ⟨.nil,fun _ inside => absurd inside List.not_mem_nil⟩

theorem tasks_kept (step : ServerStep cfg s s') :
    (List.range s.made).filterMap s'.conOf = (List.range s.made).filterMap s.conOf :=
  List.filterMap_congr fun _ inside => conOf_kept step (List.mem_range.mp inside)

theorem dispatched_kept (dispatched : Dispatched listenfd number e s) (step : ServerStep cfg s s')
    (accepted : s'.accepted = s.accepted) (registered : s'.registered = s.registered) (made : s'.made = s.made)
    (pending : (left s'.loop).Nodup ∧ ∀ c, .connfd c ∈ left s'.loop → c ∈ s.registered) :
    Dispatched listenfd number e s' where
  made := accepted ▸ dispatched.made
  conns := registered ▸ dispatched.conns
  messages := by rw [made,tasks_kept step,dispatched.messages]
  closed := accepted ▸ registered ▸ dispatched.closed
  notListening := registered ▸ dispatched.notListening
  old := accepted ▸ registered ▸ dispatched.old
  once := registered ▸ dispatched.once
  pending := registered ▸ pending

theorem dispatched_aside (dispatched : Dispatched listenfd number e s) (step : ServerStep cfg s s')
    (stays : ∀ fd rest, s.loop = .events (fd :: rest) → s'.loop = s.loop) : Dispatched listenfd number e s' := by
  have pending := dispatched.pending
  have taken {fd : Fd} {rest : List Fd} {after : Loop} (here : s.loop = .events (fd :: rest))
      (same : s'.loop = after) (other : after ≠ .events (fd :: rest)) : False :=
    other (same.symm.trans ((stays fd rest here).trans here))
  cases step with
  | client up step =>
    have stepped : ServerStep cfg s s' := .client up step
    cases step <;> exact dispatched_kept dispatched stepped rfl rfl rfl pending
  | thread up step =>
    have stepped := ServerStep.thread up step
    cases step <;> exact dispatched_kept dispatched stepped rfl rfl rfl pending
  | loop up step =>
    have stepped := ServerStep.loop up step
    cases step with
    | epollWait here reported =>
      exact dispatched_kept dispatched stepped rfl rfl rfl
        ⟨reported.once,fun c inside => (reported.readable _ inside).1⟩
    | roundOver =>
      exact dispatched_kept dispatched stepped rfl rfl rfl ⟨.nil,fun c inside => absurd inside List.not_mem_nil⟩
    | push here | leave here =>
      rw [here] at pending
      exact dispatched_kept dispatched stepped rfl rfl rfl pending
    | accept here | acceptFails here | unknown here | closed here => exact (taken here rfl (by simp)).elim
    | onMessage here => exact (taken here rfl (by simp)).elim

/-- The one listener's event: a connection that is accepted is new to the loop. -/
theorem dispatched_accept (dispatched : Dispatched listenfd number e s) {rest : List Fd}
    (step : ServerStep cfg s {s with
      backlog := s.backlog - 1, accepted := s.accepted + 1,
      registered := s.accepted :: s.registered, loop := .events rest})
    (pending : rest.Nodup ∧ ∀ c, .connfd c ∈ rest → c ∈ s.registered) (fresh : Fresh listenfd number s) :
    Dispatched listenfd number (handleNewConnection e (number s.accepted)) {s with
      backlog := s.backlog - 1, accepted := s.accepted + 1, registered := s.accepted :: s.registered,
      loop := .events rest} := by
  have nonneg : ¬ number s.accepted < 0 := not_lt.mpr fresh.nonneg
  have new : s.accepted ∉ s.registered := fun inside => lt_irrefl _ (dispatched.old _ inside)
  unfold handleNewConnection
  rw [if_neg nonneg]
  constructor
  · exact congrArg (· + 1) dispatched.made
  · intro fd c
    simp only [EventLoop.State.fire,EventLoop.State.keep,EventLoop.addEpollReadFd,dispatched.made,List.mem_cons]
    by_cases same : fd = number s.accepted
    · subst same
      rw [Function.update_self]
      constructor
      · rintro ⟨⟩
        exact ⟨.inl rfl,rfl⟩
      · rintro ⟨rfl | old,taken⟩
        · rfl
        · exact absurd taken (fresh.unused c old)
    · rw [Function.update_of_ne same,dispatched.conns]
      constructor
      · rintro ⟨old,is⟩
        exact ⟨.inr old,is⟩
      · rintro ⟨rfl | old,is⟩
        · exact absurd is.symm same
        · exact ⟨old,is⟩
  · have tasks := tasks_kept step
    simpa [EventLoop.State.fire,EventLoop.State.keep,EventLoop.addEpollReadFd,tasks] using dispatched.messages
  · intro c
    simp only [EventLoop.State.fire,EventLoop.State.keep,EventLoop.addEpollReadFd,List.mem_append,List.mem_cons,
      List.not_mem_nil,Prod.mk.injEq,reduceCtorEq,and_false,or_false,not_or,dispatched.closed c]
    constructor
    · rintro ⟨old,gone⟩
      exact ⟨by omega,by omega,gone⟩
    · rintro ⟨upTo,other,gone⟩
      exact ⟨by omega,gone⟩
  · exact List.forall_mem_cons.mpr ⟨fresh.notListening,dispatched.notListening⟩
  · exact List.forall_mem_cons.mpr ⟨Nat.lt_succ_self _,fun c old => Nat.lt_succ_of_lt (dispatched.old c old)⟩
  · exact List.nodup_cons.mpr ⟨new,dispatched.once⟩
  · exact ⟨pending.1,fun c inside => List.mem_cons_of_mem _ (pending.2 c inside)⟩

theorem dispatched_close (dispatched : Dispatched listenfd number e s) {c : Nat} {rest : List Fd}
    (step : ServerStep cfg s {s with registered := s.registered.erase c, loop := .events rest})
    (found : c ∈ s.registered) (other : Fd.connfd c ∉ rest)
    (pending : rest.Nodup ∧ ∀ c, .connfd c ∈ rest → c ∈ s.registered) :
    Dispatched listenfd number ((EventLoop.delEpollReadFd (e.fire c .close) (number c)).erase (number c))
      {s with registered := s.registered.erase c, loop := .events rest} := by
  have erased (x : Nat) : x ∈ s.registered.erase c ↔ x ≠ c ∧ x ∈ s.registered := dispatched.once.mem_erase_iff
  constructor
  · exact dispatched.made
  · intro fd x
    simp only [EventLoop.State.erase,EventLoop.delEpollReadFd,EventLoop.State.fire,erased]
    by_cases same : fd = number c
    · subst same
      rw [Function.update_self]
      constructor
      · rintro ⟨⟩
      rintro ⟨⟨apart,inside⟩,is⟩
      have own := (dispatched.conns (number c) c).mpr ⟨found,rfl⟩
      have its := (dispatched.conns (number c) x).mpr ⟨inside,is⟩
      exact absurd (Option.some.inj (its.symm.trans own)) apart
    · rw [Function.update_of_ne same,dispatched.conns]
      constructor
      · rintro ⟨inside,is⟩
        exact ⟨⟨fun own => same (own ▸ is.symm),inside⟩,is⟩
      · rintro ⟨⟨_,inside⟩,is⟩
        exact ⟨inside,is⟩
  · have tasks := tasks_kept step
    simpa [EventLoop.State.erase,EventLoop.delEpollReadFd,EventLoop.State.fire,tasks] using dispatched.messages
  · intro x
    simp only [EventLoop.State.erase,EventLoop.delEpollReadFd,EventLoop.State.fire,List.mem_append,
      List.mem_singleton,Prod.mk.injEq,and_true,erased,not_and,dispatched.closed x]
    constructor
    · rintro (⟨before,gone⟩ | rfl)
      · exact ⟨before,fun _ => gone⟩
      · exact ⟨dispatched.old x found,fun other => absurd rfl other⟩
    · rintro ⟨before,gone⟩
      by_cases own : x = c
      · exact .inr own
      · exact .inl ⟨before,gone own⟩
  · exact fun x inside => dispatched.notListening x ((erased x).mp inside).2
  · exact fun x inside => dispatched.old x ((erased x).mp inside).2
  · exact dispatched.once.erase c
  · exact ⟨pending.1,fun x inside => (erased x).mpr ⟨fun own => other (own ▸ inside),pending.2 x inside⟩⟩

theorem dispatched_message (dispatched : Dispatched listenfd number e s) {c : Nat} {rest : List Fd}
    (step : ServerStep cfg s {s with
      made := s.made + 1,
      objects := Function.update s.objects s.made (some ⟨c,.live⟩), loop := .push s.made rest})
    (pending : rest.Nodup ∧ ∀ c, .connfd c ∈ rest → c ∈ s.registered) :
    Dispatched listenfd number (e.fire c .message) {s with
      made := s.made + 1,
      objects := Function.update s.objects s.made (some ⟨c,.live⟩), loop := .push s.made rest} where
  made := dispatched.made
  conns := dispatched.conns
  messages := by
    have new : State.conOf {s with
        made := s.made + 1,
        objects := Function.update s.objects s.made (some ⟨c,.live⟩), loop := .push s.made rest} s.made = some c := by
      simp [State.conOf]
    rw [List.range_succ,List.filterMap_append,tasks_kept step,← dispatched.messages]
    simp [EventLoop.State.fire,new]
  closed x := by simpa [EventLoop.State.fire] using dispatched.closed x
  notListening := dispatched.notListening
  old := dispatched.old
  once := dispatched.once
  pending := pending

/-- `EventLoop` does with an entry what the server does with its event. -/
theorem dispatched_entry (dispatched : Dispatched listenfd number e s) (step : ServerStep cfg s s') {ready : Fd}
    {rest : List Fd} (here : s.loop = .events (ready :: rest)) (moves : s'.loop ≠ s.loop)
    (entry : Entry listenfd number s s' ready ev) (fresh : s'.accepted ≠ s.accepted → Fresh listenfd number s) :
    Dispatched listenfd number (handleEvent listenfd e ev) s' := by
  have pending := dispatched.pending
  rw [here] at pending
  obtain ⟨others,later⟩ := pending
  obtain ⟨other,rest'⟩ := List.nodup_cons.mp others
  have after : rest.Nodup ∧ ∀ c, .connfd c ∈ rest → c ∈ s.registered :=
    ⟨rest',fun c inside => later c (List.mem_cons_of_mem _ inside)⟩
  unfold handleEvent
  rw [entry.fd,entry.epollin,entry.connfd]
  cases step with
  | client up step => cases step <;> exact absurd rfl moves
  | thread up step => cases step <;> exact absurd rfl moves
  | loop up step =>
    have stepped := ServerStep.loop up step
    -- An event of a connection is one of a registered connection, so its number is known.
    have known (c : Nat) (is : ready = .connfd c) : e.conns (number c) = some c ∧ number c ≠ listenfd := by
      have inside := later c (is ▸ List.mem_cons_self)
      exact ⟨(dispatched.conns _ c).mpr ⟨inside,rfl⟩,dispatched.notListening c inside⟩
    cases step with
    | epollWait here' | roundOver here' | push here' | leave here' => rw [here] at here'; cases here'
    | accept here' =>
      rw [here] at here'
      cases here'
      have free := fresh (Nat.succ_ne_self _)
      simpa [fdOf] using dispatched_accept dispatched stepped after free
    | acceptFails here' =>
      rw [here] at here'
      cases here'
      simpa [fdOf,handleNewConnection] using dispatched_kept dispatched stepped rfl rfl rfl after
    | unknown here' gone =>
      rw [here] at here'
      cases here'
      exact absurd (later _ List.mem_cons_self) gone
    | @closed c _ here' found =>
      rw [here] at here'
      cases here'
      obtain ⟨own,apart⟩ := known c rfl
      have zero : ev.peeked = 0 := (entry.peeked c rfl).mpr rfl
      simpa [fdOf,apart,handleMessage,own,zero,EventLoop.isClosed] using
        dispatched_close dispatched stepped found other after
    | @onMessage c _ here' found =>
      rw [here] at here'
      cases here'
      obtain ⟨own,apart⟩ := known c rfl
      have some : ¬ 0 = ev.peeked := fun zero => Nat.succ_ne_self _ ((entry.peeked c rfl).mp zero.symm)
      simpa [fdOf,apart,handleMessage,own,some,EventLoop.isClosed] using
        dispatched_message dispatched stepped after

theorem dispatched_heard (heard : Heard cfg listenfd number store events s) :
    Dispatched listenfd number (events.foldl (handleEvent listenfd) (EventLoop.start listenfd)) s := by
  induction heard with
  | start => exact dispatched_start store
  | aside _ step stays ih => exact dispatched_aside ih step stays
  | entry _ step here moves entry fresh ih =>
    rw [List.foldl_append]
    exact dispatched_entry ih step here moves entry fresh

/-- Where numbers are free as they are given, any run of the server hands out entries. -/
theorem heard_of_run (run : Relation.ReflTransGen (fun s s' => ServerStep cfg s s' ∧
    (s'.accepted ≠ s.accepted → Fresh listenfd number s)) (.start store) s) :
    ∃ events, Heard cfg listenfd number store events s := by
  induction run with
  | refl => exact ⟨[],.start⟩
  | @tail s s' _ step ih =>
    obtain ⟨events,heard⟩ := ih
    obtain ⟨step,fresh⟩ := step
    by_cases taken : ∃ ready rest, s.loop = .events (ready :: rest) ∧ s'.loop ≠ s.loop
    · obtain ⟨ready,rest,here,moves⟩ := taken
      let e : Event := ⟨fdOf listenfd number ready,true,if s'.accepted = s.accepted then -1 else number s.accepted,
        if s'.made = s.made then 0 else 1⟩
      exact ⟨events ++ [e],.entry heard step here moves ⟨rfl,rfl,rfl,fun _ _ => by simp [e]⟩ fresh⟩
    · exact ⟨events,.aside heard step fun ready rest here => by
        by_contra moves
        exact taken ⟨ready,rest,here,moves⟩⟩

theorem loop_flatMap (listenfd : Int) (rounds : List (Option (List Event))) : EventLoop.loop listenfd rounds =
    (rounds.flatMap (·.getD [])).foldl (handleEvent listenfd) (EventLoop.start listenfd) := by
  rw [List.foldl_flatMap]
  unfold EventLoop.loop
  congr 1
  funext s round
  cases round <;> rfl

/-- `EventLoop` with the numbers of the descriptors is the loop of the server, which goes by connections:
however the entries are divided into rounds, its `_conns` has the registered connections, it has fired
a message for each object in turn, and each connection's callbacks follow one life cycle. -/
theorem loop_dispatches (heard : Heard cfg listenfd number store events s) {rounds : List (Option (List Event))}
    (division : rounds.flatMap (·.getD []) = events) :
    Dispatched listenfd number (EventLoop.loop listenfd rounds) s ∧
      ∀ c < s.accepted, LifeCycle ((EventLoop.loop listenfd rounds).word c) := by
  have dispatched := dispatched_heard heard
  rw [← division,← loop_flatMap] at dispatched
  exact ⟨dispatched,fun c old => (EventLoop.invariant_loop listenfd rounds).lifeCycle c (dispatched.made ▸ old)⟩

end steps

section sample

def sampleNumber : Nat → Int := fun _ => 5

/-- A connection is accepted, closed by its client, and the next one gets its number. -/
theorem sample_reused : ∃ s, s.registered = [1] ∧ s.accepted = 2 ∧
    Relation.ReflTransGen (fun s s' => ServerStep sampleConfig s s' ∧
      (s'.accepted ≠ s.accepted → Fresh 3 sampleNumber s)) (.start sampleStore) s := by
  have listening {s : State} (waiting : 0 < s.backlog) (none : s.registered = []) :
      Reported sampleConfig s [.listenfd] := reported_alone (readable_listenfd waiting none)
  have quiet {s s' : State} (same : s'.accepted = s.accepted) :
      s'.accepted ≠ s.accepted → Fresh 3 sampleNumber s := fun other => absurd same other
  have free {s : State} (none : s.registered = []) : Fresh 3 sampleNumber s :=
    ⟨by simp [sampleNumber],by simp [sampleNumber],by simp [none]⟩
  let s₀ := State.start sampleStore
  let s₁ : State := {s₀ with accepted := 1, registered := [0]}
  let s₂ : State := {s₁ with conns := Function.update s₁.conns 0 ⟨[],true,[]⟩}
  have ended : Reported sampleConfig s₂ [.connfd 0] := reported_alone (readable_connfd rfl rfl (.inr rfl))
  refine ⟨{s₂ with accepted := 2, registered := [1], loop := .events []},rfl,rfl,?_⟩
  refine .head ⟨.client rfl .connect,quiet rfl⟩ ?_
  refine .head ⟨.loop rfl (.epollWait rfl (listening Nat.one_pos rfl)),quiet rfl⟩ ?_
  refine .head ⟨.loop rfl (.accept rfl Nat.one_pos),fun _ => free rfl⟩ ?_
  refine .head ⟨.loop rfl (.roundOver rfl),quiet rfl⟩ ?_
  refine .head ⟨.client rfl (@ClientStep.shut s₁ 0 Nat.one_pos),quiet rfl⟩ ?_
  refine .head ⟨.loop rfl (.epollWait rfl ended),quiet rfl⟩ ?_
  refine .head ⟨.loop rfl (.closed rfl (List.mem_singleton_self 0) (.eof rfl rfl)),quiet rfl⟩ ?_
  refine .head ⟨.loop rfl (.roundOver rfl),quiet rfl⟩ ?_
  refine .head ⟨.client rfl .connect,quiet rfl⟩ ?_
  refine .head ⟨.loop rfl (.epollWait rfl (listening Nat.one_pos rfl)),quiet rfl⟩ ?_
  exact .single ⟨.loop rfl (.accept rfl Nat.one_pos),fun _ => free rfl⟩

theorem sample_loop_dispatches : ∃ events s, s.registered = [1] ∧
    Dispatched 3 sampleNumber (EventLoop.loop 3 [some events]) s ∧
    ∀ c < s.accepted, LifeCycle ((EventLoop.loop 3 [some events]).word c) := by
  obtain ⟨s,registered,-,run⟩ := sample_reused
  obtain ⟨events,heard⟩ := heard_of_run run
  exact ⟨events,s,registered,loop_dispatches heard (by simp)⟩

end sample

end FilediskServer.Dispatch
