import FilediskServer.FileServer
import FilediskServer.Library.Handles

/-! The kernel's descriptor table under the server. `open` and `accept` return the lowest
free number and `close` frees it, whatever it stands for at that moment. A `TcpConnection`
has two members that close its number, one after the other. -/
namespace FilediskServer.Descriptors
open Interaction Bytes Calls FileServer Handles

/-- What the kernel keeps behind a number. Sockets go by their `accept`, files by their `open`;
`other` is what the rest of the server holds all the time. -/
inductive Description
  | other
  | socket (con : Nat)
  | file (opened : Nat)
  deriving DecidableEq

def Description.IsSocket : Description → Prop
  | .socket _ => True
  | _ => False

/-- A number with what it was opened for. -/
abbrev Descriptor := Nat × Description

/-- A call through a number, and what it found there. -/
structure Use where
  descriptor : Descriptor
  reached : Option Description
  deriving DecidableEq

/-- The members of `TcpConnection` in the order of their destructors. -/
inductive Member
  | sock
  | sockIo
  deriving DecidableEq

/-- `fdOf` is the `_fd` of a connection, `sfd` the local of that name in `savefile` and
`downloadfile`, and `closing` the connection that the loop destroys with the member that is
next. What a call through a wrong number does to the data is not followed. -/
structure State where
  server : FileServer.State
  table : Table Description
  fdOf : Nat → Nat
  sfd : Nat → Option Descriptor
  opened : Nat
  closing : Option (Nat × Member)
  uses : List Use
  closes : List Use

def State.start (store : Store) (others : List Nat) : State where
  server := .start store
  table n := if n ∈ others then some .other else none
  fdOf _ := 0
  sfd _ := none
  opened := 0
  closing := none
  uses := []
  closes := []

namespace State

def conFd (s : State) (c : Nat) : Descriptor := (s.fdOf c,.socket c)

def use (s : State) (d : Descriptor) : State := {s with uses := s.uses ++ [⟨d,s.table d.1⟩]}

def close (s : State) (d : Descriptor) : State := {s with
  table := s.table.release d.1, closes := s.closes ++ [⟨d,s.table d.1⟩]}

/-- `_conns[connfd] = con` destroys a connection that was still there under the number. -/
def accept (s : State) (n : Nat) (rest : List Fd) : State := {s with
  server := {s.server with
    backlog := s.server.backlog - 1, accepted := s.server.accepted + 1,
    registered := s.server.accepted :: s.server.registered.filter (s.fdOf · ≠ n),
    loop := .events rest},
  table := s.table.assign n (.socket s.server.accepted),
  fdOf := Function.update s.fdOf s.server.accepted n,
  closing := (s.server.registered.find? (s.fdOf · = n)).map (·,.sock)}

/-- What a call of thread `i`, which serves connection `c`, does to the table. -/
def after (s : State) (i c n : Nat) : Option (Event signature) → State
  | some ⟨.write .., _⟩ => s.use (s.conFd c)
  | some ⟨.openFile _, some _⟩ => {s with
      table := s.table.assign n (.file s.opened), opened := s.opened + 1,
      sfd := Function.update s.sfd i (some (n,.file s.opened))}
  | some ⟨.openFile _, none⟩ => {s with sfd := Function.update s.sfd i none}
  | some ⟨.writeFile (some _) _, _⟩ =>
    match s.sfd i with
    | some d => s.use d
    | none => s
  | some ⟨.close (some _), _⟩ =>
    match s.sfd i with
    | some d => {s.close d with sfd := Function.update s.sfd i none}
    | none => s
  | _ => s

end State

/-- The server after a step of `process`. -/
def processed (s : FileServer.State) (i task c : Nat) (job : Job Unit)
    (event : Option (Event signature)) (w : World) : FileServer.State := {s with
  threads := Function.update s.threads i (some (task,job)),
  conns := Function.update s.conns c w.conn, store := w.store,
  taken := Function.update s.taken c (s.taken c ++ (bytesRead event).map fun b => (task,b)),
  read := Function.update s.read task (s.read task ++ bytesRead event)}

def opens : Option (Event signature) → Bool
  | some ⟨.openFile _, some _⟩ => true
  | _ => false

/-- One step of a client, of the loop or of a thread. -/
inductive DescriptorStep (cfg : Config) (s : State) : State → Prop
  | client {server : FileServer.State} (step : ClientStep s.server server) :
      DescriptorStep cfg s {s with server := server}
  | accept {rest : List Fd} {n : Nat} (idle : s.closing = none)
      (here : s.server.loop = .events (.listenfd :: rest)) (waiting : 0 < s.server.backlog)
      (lowest : Lowest s.table n) : DescriptorStep cfg s (s.accept n rest)
  | closed {c : Nat} {rest : List Fd} (idle : s.closing = none)
      (here : s.server.loop = .events (.connfd c :: rest)) (found : c ∈ s.server.registered)
      (isClosed : IsClosed cfg.env (s.server.conns c) true) : DescriptorStep cfg s {s with
        server := {s.server with
          registered := s.server.registered.erase c, loop := .events rest},
        closing := some (c,.sock)}
  | closeSock {c : Nat} (here : s.closing = some (c,.sock)) :
      DescriptorStep cfg s {s.close (s.conFd c) with closing := some (c,.sockIo)}
  | closeSockIo {c : Nat} (here : s.closing = some (c,.sockIo)) :
      DescriptorStep cfg s {s.close (s.conFd c) with closing := none}
  | loop {server : FileServer.State} (idle : s.closing = none) (step : LoopStep cfg s.server server)
      (same : server.registered = s.server.registered) :
      DescriptorStep cfg s {s with server := server}
  | pop {i task : Nat} {rest : List Nat} (thread : i < cfg.threadNum)
      (idle : s.server.threads i = none) (first : s.server.que = task :: rest) :
      DescriptorStep cfg s {s with server := {s.server with
        que := rest, threads := Function.update s.server.threads i (some (task,FileTask.process cfg.md5))}}
  | process {i task later n : Nat} {job job' : Job Unit} {o : Object} {event : Option (Event signature)}
      {w : World} (running : s.server.threads i = some (task,job)) (place : task ≤ later)
      (object : s.server.objects later = some o)
      (step : Step (Sys cfg.env task) job ⟨s.server.conns o.con,s.server.store⟩ event job' w)
      (lowest : opens event → Lowest s.table n) :
      DescriptorStep cfg s {s.after i o.con n event with
        server := processed s.server i task o.con job' event w}
  | finish {i task : Nat} (running : s.server.threads i = some (task,.ret ())) :
      DescriptorStep cfg s {s with server := {s.server with
        threads := Function.update s.server.threads i none}}
  | terminate {i task : Nat} {e : Halt} (running : s.server.threads i = some (task,.throw e)) :
      DescriptorStep cfg s {s with server := {s.server with terminated := true}}
  | sigpipe {i task later : Nat} {source : Source} {left : Nat} {k : WriteResult → Job Unit} {o : Object}
      (running : s.server.threads i = some (task,.call (.write source left) k)) (place : task ≤ later)
      (object : s.server.objects later = some o) (gone : s.server.closed o.con = true) :
      DescriptorStep cfg s {s with server := {s.server with terminated := true}}

/-- An uncaught exception or a signal has ended the server. -/
def Steps (cfg : Config) (s s' : State) : Prop :=
  s.server.terminated = false ∧ DescriptorStep cfg s s'

/-- What may happen next, for runs on a server where nothing goes wrong. -/
inductive Act
  | connect
  | send (c : Nat) (b : Bytes)
  | shut (c : Nat)
  | epollWait (fds : List Fd)
  /-- the loop goes on; `n` is the number an `accept` gets -/
  | loop (n : Nat)
  /-- the destructor of the next member -/
  | destroy
  /-- thread `i` goes on; `n` is the number an `open` gets -/
  | thread (i n : Nat)

deriving instance DecidableEq for Fd

def readable (s : FileServer.State) : Fd → Bool
  | .listenfd => decide (0 < s.backlog)
  | .connfd c => decide (c ∈ s.registered) && (!(s.conns c).input.isEmpty || (s.conns c).ended)

def reported (s : FileServer.State) (fds : List Fd) : Bool :=
  fds.all (readable s) && decide fds.Nodup && decide (fds.length < evtListSize) &&
    (.listenfd :: s.registered.map Fd.connfd).all fun fd => !readable s fd || decide (fd ∈ fds)

def State.loopAct (cfg : Config) (n : Nat) (s : State) : Option State :=
  match s.server.loop with
  | .waitEpollFd => none
  | .events [] => some {s with server := {s.server with loop := .waitEpollFd}}
  | .events (.listenfd :: rest) =>
    if 0 < s.server.backlog ∧ Lowest s.table n then some (s.accept n rest) else none
  | .events (.connfd c :: rest) =>
    if c ∈ s.server.registered then
      if (s.server.conns c).input = [] then
        if (s.server.conns c).ended then some {s with
          server := {s.server with registered := s.server.registered.erase c, loop := .events rest},
          closing := some (c,.sock)}
        else none
      else some {s with server := {s.server with
        made := s.server.made + 1,
        objects := Function.update s.server.objects s.server.made (some ⟨c,.live⟩),
        loop := .push s.server.made rest}}
    else some {s with server := {s.server with loop := .events rest}}
  | .push task rest =>
    if s.server.que.length ≠ cfg.queSize then some {s with server := {s.server with
      que := s.server.que ++ [task], loop := .leave task rest}} else none
  | .leave task rest => some {s with server := {s.server with
      objects := Function.update s.server.objects task ((s.server.objects task).map Object.destroy),
      loop := .events rest}}

def State.threadAct (cfg : Config) (i n : Nat) (s : State) : Option State :=
  match s.server.threads i with
  | none =>
    match s.server.que with
    | [] => none
    | task :: rest => if i < cfg.threadNum then some {s with server := {s.server with
        que := rest,
        threads := Function.update s.server.threads i (some (task,FileTask.process cfg.md5))}} else none
  | some (_,.ret ()) =>
    some {s with server := {s.server with threads := Function.update s.server.threads i none}}
  | some (_,.throw _) => some {s with server := {s.server with terminated := true}}
  | some (task,.call c k) =>
    match s.server.objects task with
    | none => none
    | some o =>
      match respond cfg.env.cwd task ⟨s.server.conns o.con,s.server.store⟩ c with
      | none => none
      | some (r,w) =>
        if opens (some ⟨c,r⟩) = true → Lowest s.table n then some {s.after i o.con n (some ⟨c,r⟩) with
          server := processed s.server i task o.con (k r) (some ⟨c,r⟩) w} else none
  | some (task,.loop body b k) =>
    match s.server.objects task with
    | none => none
    | some o => some {s.after i o.con n none with
        server := processed s.server i task o.con
          ((body b).bind (Sum.elim (fun next => .loop body next k) k)) none
          ⟨s.server.conns o.con,s.server.store⟩}

def State.act (cfg : Config) (a : Act) (s : State) : Option State :=
  if s.server.terminated then none
  else
    match a with
    | .connect => some {s with server := {s.server with backlog := s.server.backlog + 1}}
    | .send c b =>
      if c < s.server.accepted + s.server.backlog ∧ (s.server.conns c).ended = false then
        some {s with server := {s.server with
          conns := Function.update s.server.conns c
            {s.server.conns c with input := (s.server.conns c).input ++ b}}}
      else none
    | .shut c =>
      if c < s.server.accepted + s.server.backlog then
        some {s with server := {s.server with
          conns := Function.update s.server.conns c {s.server.conns c with ended := true}}}
      else none
    | .epollWait fds =>
      match s.closing, s.server.loop with
      | none, .waitEpollFd => if reported s.server fds then
          some {s with server := {s.server with loop := .events fds}} else none
      | _, _ => none
    | .loop n => if s.closing = none then s.loopAct cfg n else none
    | .destroy =>
      match s.closing with
      | none => none
      | some (c,.sock) => some {s.close (s.conFd c) with closing := some (c,.sockIo)}
      | some (c,.sockIo) => some {s.close (s.conFd c) with closing := none}
    | .thread i n => s.threadAct cfg i n

section acts
variable {cfg : Config} {s s' : State} {n : Nat}

theorem readable_iff (quick : cfg.env.readFails = fun _ => False) (s : FileServer.State) (fd : Fd) :
    Readable cfg s fd ↔ readable s fd = true := by
  cases fd with
  | listenfd => simp [Readable,readable]
  | connfd c => simp [Readable,readable,quick]

theorem reported_sound (quick : cfg.env.readFails = fun _ => False) {s : FileServer.State}
    {fds : List Fd} (checked : reported s fds = true) : Reported cfg s fds := by
  simp only [reported,Bool.and_eq_true,List.all_eq_true,decide_eq_true_eq] at checked
  obtain ⟨⟨⟨ready,once⟩,fits⟩,all⟩ := checked
  refine ⟨fun fd inside => (readable_iff quick s fd).mpr (ready fd inside),once,fits.le,
    fun _ fd is => ?_⟩
  have known : fd ∈ Fd.listenfd :: s.registered.map Fd.connfd := by
    cases fd with
    | listenfd => exact List.mem_cons_self
    | connfd c => exact List.mem_cons_of_mem _ (List.mem_map_of_mem is.1)
  have found := all fd known
  rw [(readable_iff quick s fd).mp is] at found
  simpa using found

theorem loopAct_sound (idle : s.closing = none) (acted : s.loopAct cfg n = some s') :
    DescriptorStep cfg s s' := by
  unfold State.loopAct at acted
  split at acted
  next => cases acted
  next here => cases acted; exact .loop idle (.roundOver here) rfl
  next rest here =>
    split_ifs at acted with met
    cases acted
    exact .accept idle here met.1 met.2
  next c rest here =>
    split_ifs at acted with found empty ended
    · cases acted
      exact .closed idle here found (.eof empty ended)
    · cases acted
      exact .loop idle (.onMessage here found (.data empty)) rfl
    · cases acted
      exact .loop idle (.unknown here found) rfl
  next task rest here =>
    split_ifs at acted with notFull
    cases acted
    exact .loop idle (.push here notFull) rfl
  next task rest here => cases acted; exact .loop idle (.leave here) rfl

theorem threadAct_sound {i : Nat} (quick : cfg.env = calm cfg.env.cwd)
    (acted : s.threadAct cfg i n = some s') : DescriptorStep cfg s s' := by
  unfold State.threadAct at acted
  split at acted
  next idle =>
    split at acted
    next => cases acted
    next task rest first =>
      split_ifs at acted with thread
      cases acted
      exact .pop thread idle first
  next running => cases acted; exact .finish running
  next running => cases acted; exact .terminate running
  next task c k running =>
    split at acted
    next => cases acted
    next o object =>
      split at acted
      next => cases acted
      next r w answered =>
        split_ifs at acted with lowest
        cases acted
        have within := respond_within cfg.env.cwd task _ c r w answered
        rw [← quick] at within
        exact .process running le_rfl object (.call within) lowest
  next task body b k running =>
    split at acted
    next => cases acted
    next o object => cases acted; exact .process running le_rfl object .loop nofun

theorem act_sound (quick : cfg.env = calm cfg.env.cwd) {a : Act} (acted : s.act cfg a = some s') :
    Steps cfg s s' := by
  have reads : cfg.env.readFails = fun _ => False := by rw [quick]; rfl
  unfold State.act at acted
  split at acted
  next => cases acted
  next up =>
    refine ⟨by simpa using up,?_⟩
    cases a with
    | connect => cases acted; exact .client .connect
    | send c b =>
      dsimp only at acted
      split_ifs at acted with may
      cases acted
      exact .client (.send may.1 may.2)
    | shut c =>
      dsimp only at acted
      split_ifs at acted with may
      cases acted
      exact .client (.shut may)
    | epollWait fds =>
      dsimp only at acted
      split at acted
      next idle here =>
        split_ifs at acted with checked
        cases acted
        exact .loop idle (.epollWait here (reported_sound reads checked)) rfl
      next => cases acted
    | loop n =>
      dsimp only at acted
      split_ifs at acted with idle
      exact loopAct_sound idle acted
    | destroy =>
      dsimp only at acted
      split at acted
      next => cases acted
      next c here => cases acted; exact .closeSock here
      next c here => cases acted; exact .closeSockIo here
    | thread i n => exact threadAct_sound quick acted

end acts

end FilediskServer.Descriptors
