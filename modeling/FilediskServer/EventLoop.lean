import Mathlib.Data.Finset.Basic
import Mathlib.Logic.Function.Basic

/-! `EventLoop` with the numbers of its descriptors: what it adds to `epoll` and keeps in
`_conns`, and the callbacks it fires for each `TcpConnection` object. The kernel may give a
connection a number that an earlier one had. -/
namespace FilediskServer.EventLoop

/-- The callbacks of a `TcpConnection`, all of which `FileServer::start` sets. -/
inductive Callback
  | newConnection
  | message
  | close
  deriving DecidableEq

/-- Objects are numbered in the order in which they are made; `fired` records the callbacks. -/
structure State where
  epoll : Finset Int
  conns : Int → Option Nat
  made : Nat
  fired : List (Nat × Callback)

/-- One entry of `_evtList`, with what `accept` or the peek of `isClosed` returns if the loop
comes to call it. -/
structure Event where
  fd : Int
  epollin : Bool
  connfd : Int
  peeked : Int

def State.fire (s : State) (con : Nat) (callback : Callback) : State :=
  {s with fired := s.fired ++ [(con,callback)]}

def addEpollReadFd (s : State) (fd : Int) : State := {s with epoll := insert fd s.epoll}

def delEpollReadFd (s : State) (fd : Int) : State := {s with epoll := s.epoll.erase fd}

/-- The constructor. -/
def start (listenfd : Int) : State := addEpollReadFd ⟨∅,fun _ => none,0,[]⟩ listenfd

/-- `_conns[connfd] = con` for an object that has just been made. -/
def State.keep (s : State) (connfd : Int) : State :=
  {s with made := s.made + 1, conns := Function.update s.conns connfd (some s.made)}

def State.erase (s : State) (fd : Int) : State :=
  {s with conns := Function.update s.conns fd none}

def handleNewConnection (s : State) (connfd : Int) : State :=
  if connfd < 0 then s else ((addEpollReadFd s connfd).keep connfd).fire s.made .newConnection

/-- `TcpConnection::isClosed` -/
def isClosed (peeked : Int) : Bool := 0 == peeked

def handleMessage (s : State) (fd peeked : Int) : State :=
  match s.conns fd with
  | some con =>
    if isClosed peeked then (delEpollReadFd (s.fire con .close) fd).erase fd
    else s.fire con .message
  | none => s

def handleEvent (listenfd : Int) (s : State) (e : Event) : State :=
  if e.fd = listenfd then
    if e.epollin then handleNewConnection s e.connfd else s
  else
    if e.epollin then handleMessage s e.fd e.peeked else s

/-- One round; `none` when `epoll_wait` fails for good. -/
def waitEpollFd (listenfd : Int) (s : State) : Option (List Event) → State
  | none => s
  | some evtList => evtList.foldl (handleEvent listenfd) s

def loop (listenfd : Int) (rounds : List (Option (List Event))) : State :=
  rounds.foldl (waitEpollFd listenfd) (start listenfd)

/-- The callbacks fired for one object. -/
def State.word (s : State) (con : Nat) : List Callback :=
  (s.fired.filter (·.1 = con)).map Prod.snd

/-- The word of a connection that is not closed. -/
def Opened (word : List Callback) : Prop :=
  ∃ n, word = .newConnection :: List.replicate n .message

def LifeCycle (word : List Callback) : Prop :=
  Opened word ∨ ∃ opened, Opened opened ∧ word = opened ++ [.close]

theorem opened_message {word : List Callback} (opened : Opened word) : Opened (word ++ [.message]) := by
  obtain ⟨n,rfl⟩ := opened
  exact ⟨n + 1,by rw [List.cons_append,List.replicate_succ']⟩

theorem close_notMem {word : List Callback} (opened : Opened word) : Callback.close ∉ word := by
  obtain ⟨n,rfl⟩ := opened
  simp [List.mem_replicate]

theorem word_fire (s : State) (con x : Nat) (callback : Callback) :
    (s.fire con callback).word x = s.word x ++ if con = x then [callback] else [] := by
  by_cases same : con = x <;> simp [State.fire,State.word,List.filter_append,same]

theorem mem_word {s : State} {con : Nat} {callback : Callback} :
    callback ∈ s.word con ↔ (con,callback) ∈ s.fired := by
  simp [State.word]

theorem word_own (s : State) (con : Nat) (callback : Callback) :
    (s.fire con callback).word con = s.word con ++ [callback] := by
  rw [word_fire,if_pos rfl]

theorem word_other {s : State} {con x : Nat} {callback : Callback} (other : con ≠ x) :
    (s.fire con callback).word x = s.word x := by
  rw [word_fire,if_neg other,List.append_nil]

/-- What ties numbers, objects, `_conns` and `epoll` together. -/
structure Invariant (listenfd : Int) (s : State) : Prop where
  made : ∀ fd con, s.conns fd = some con → con < s.made
  apart : ∀ fd fd' con, s.conns fd = some con → s.conns fd' = some con → fd = fd'
  opened : ∀ fd con, s.conns fd = some con → Opened (s.word con)
  unmade : ∀ con, s.made ≤ con → s.word con = []
  lifeCycle : ∀ con, con < s.made → LifeCycle (s.word con)
  polled : ∀ fd, fd ∈ s.epoll ↔ fd = listenfd ∨ ∃ con, s.conns fd = some con

theorem invariant_start (listenfd : Int) : Invariant listenfd (start listenfd) where
  made _ _ found := by cases found
  apart _ _ _ found := by cases found
  opened _ _ found := by cases found
  unmade _ _ := rfl
  lifeCycle _ made := absurd made (Nat.not_lt_zero _)
  polled fd := by simp [start,addEpollReadFd]

section steps
variable {listenfd : Int} {s : State}

theorem invariant_handleNewConnection (inv : Invariant listenfd s) (connfd : Int) :
    Invariant listenfd (handleNewConnection s connfd) := by
  unfold handleNewConnection
  split_ifs with failed
  · exact inv
  -- The object is new, so its word is empty and no other number leads to it.
  have fresh := inv.unmade s.made le_rfl
  have known (fd : Int) (con : Nat) (found : Function.update s.conns connfd (some s.made) fd = some con) :
      fd = connfd ∧ con = s.made ∨ s.conns fd = some con ∧ con < s.made := by
    by_cases same : fd = connfd
    · subst same
      rw [Function.update_self] at found
      exact .inl ⟨rfl,(Option.some.inj found).symm⟩
    · rw [Function.update_of_ne same] at found
      exact .inr ⟨found,inv.made fd con found⟩
  have first : Opened ((((addEpollReadFd s connfd).keep connfd).fire s.made .newConnection).word s.made) := by
    rw [word_own]
    exact ⟨0,congrArg (· ++ _) fresh⟩
  constructor
  · intro fd con found
    rcases known fd con found with ⟨-,rfl⟩ | ⟨-,before⟩
    · exact Nat.lt_succ_self _
    · exact Nat.lt_succ_of_lt before
  · intro fd fd' con found found'
    rcases known fd con found with ⟨rfl,rfl⟩ | ⟨old,before⟩
    · rcases known fd' _ found' with ⟨rfl,-⟩ | ⟨-,before⟩
      · rfl
      · exact absurd before (lt_irrefl _)
    · rcases known fd' con found' with ⟨-,rfl⟩ | ⟨old',-⟩
      · exact absurd before (lt_irrefl _)
      · exact inv.apart fd fd' con old old'
  · intro fd con found
    rcases known fd con found with ⟨-,rfl⟩ | ⟨old,before⟩
    · exact first
    · rw [word_other (Nat.ne_of_gt before)]
      exact inv.opened fd con old
  · intro con later
    have after : s.made < con := later
    rw [word_other after.ne]
    exact inv.unmade con after.le
  · intro con before
    have upTo : con < s.made + 1 := before
    rcases Nat.lt_succ_iff_lt_or_eq.mp upTo with earlier | rfl
    · rw [word_other earlier.ne']
      exact inv.lifeCycle con earlier
    · exact .inl first
  · intro fd
    by_cases same : fd = connfd
    · subst same
      simp [State.fire,State.keep,addEpollReadFd]
    · simp [State.fire,State.keep,addEpollReadFd,same,inv.polled fd]

theorem invariant_message (inv : Invariant listenfd s) {fd : Int} {con : Nat}
    (found : s.conns fd = some con) : Invariant listenfd (s.fire con .message) := by
  have own := opened_message (inv.opened fd con found)
  rw [← word_own] at own
  constructor
  · exact inv.made
  · exact inv.apart
  · intro fd' x other
    by_cases same : con = x
    · exact same ▸ own
    · rw [word_other same]
      exact inv.opened fd' x other
  · intro x later
    rw [word_other (Nat.ne_of_lt (lt_of_lt_of_le (inv.made fd con found) later))]
    exact inv.unmade x later
  · intro x before
    by_cases same : con = x
    · exact .inl (same ▸ own)
    · rw [word_other same]
      exact inv.lifeCycle x before
  · exact inv.polled

theorem invariant_close (inv : Invariant listenfd s) {fd : Int} {con : Nat} (other : fd ≠ listenfd)
    (found : s.conns fd = some con) :
    Invariant listenfd ((delEpollReadFd (s.fire con .close) fd).erase fd) := by
  -- What is left in `_conns` was there before under another number, so it is another object.
  have left (fd' : Int) (x : Nat) (still : Function.update s.conns fd none fd' = some x) :
      fd' ≠ fd ∧ s.conns fd' = some x ∧ con ≠ x := by
    have apart : fd' ≠ fd := by
      rintro rfl
      rw [Function.update_self] at still
      cases still
    rw [Function.update_of_ne apart] at still
    exact ⟨apart,still,fun same => apart (inv.apart fd' fd x still (same ▸ found))⟩
  constructor
  · exact fun fd' x still => inv.made fd' x (left fd' x still).2.1
  · exact fun fd' fd'' x still still' => inv.apart fd' fd'' x (left fd' x still).2.1 (left fd'' x still').2.1
  · intro fd' x still
    obtain ⟨-,old,different⟩ := left fd' x still
    exact word_other (s := s) different ▸ inv.opened fd' x old
  · intro x later
    have different := Nat.ne_of_lt (lt_of_lt_of_le (inv.made fd con found) later)
    exact word_other (s := s) different ▸ inv.unmade x later
  · intro x before
    by_cases same : con = x
    · subst same
      exact .inr ⟨_,inv.opened fd con found,word_own s con .close⟩
    · exact word_other (s := s) same ▸ inv.lifeCycle x before
  · intro fd'
    by_cases same : fd' = fd
    · subst same
      simp [delEpollReadFd,State.fire,State.erase,other]
    · simp [delEpollReadFd,State.fire,State.erase,same,inv.polled fd']

theorem invariant_handleEvent (inv : Invariant listenfd s) (e : Event) :
    Invariant listenfd (handleEvent listenfd s e) := by
  unfold handleEvent
  split_ifs with listening epollin epollin
  · exact invariant_handleNewConnection inv e.connfd
  · exact inv
  · unfold handleMessage
    cases found : s.conns e.fd with
    | none => exact inv
    | some con =>
      dsimp only
      split_ifs with closed
      · exact invariant_close inv listening found
      · exact invariant_message inv found
  · exact inv

theorem invariant_waitEpollFd (inv : Invariant listenfd s) (round : Option (List Event)) :
    Invariant listenfd (waitEpollFd listenfd s round) := by
  cases round with
  | none => exact inv
  | some evtList =>
    unfold waitEpollFd
    induction evtList generalizing s with
    | nil => exact inv
    | cons e rest ih => exact ih (invariant_handleEvent inv e)

end steps

theorem invariant_loop (listenfd : Int) (rounds : List (Option (List Event))) :
    Invariant listenfd (loop listenfd rounds) := by
  have after {s : State} (inv : Invariant listenfd s) :
      Invariant listenfd (rounds.foldl (waitEpollFd listenfd) s) := by
    induction rounds generalizing s with
    | nil => exact inv
    | cons round rest ih => exact ih (invariant_waitEpollFd inv round)
  exact after (invariant_start listenfd)

/-- Whatever `epoll` reports, `accept` returns and the peeks see, the callbacks of every
object follow its life cycle, and `epoll` has the listening descriptor and those in `_conns`. -/
theorem loop_lifeCycle (listenfd : Int) (rounds : List (Option (List Event))) :
    (∀ con < (loop listenfd rounds).made, LifeCycle ((loop listenfd rounds).word con)) ∧
      (∀ con, (con,Callback.close) ∈ (loop listenfd rounds).fired →
        ∀ fd, (loop listenfd rounds).conns fd ≠ some con) ∧
      ∀ fd, fd ∈ (loop listenfd rounds).epoll ↔
        fd = listenfd ∨ ∃ con, (loop listenfd rounds).conns fd = some con := by
  have inv := invariant_loop listenfd rounds
  refine ⟨inv.lifeCycle,fun con closed fd found => ?_,inv.polled⟩
  exact close_notMem (inv.opened fd con found) (mem_word.mpr closed)

/-- The number of a closed connection is given to the next one in the same round. -/
example :
    let s := loop 3 [some [⟨3,true,5,0⟩],some [⟨5,true,0,8⟩],some [⟨5,true,0,0⟩,⟨3,true,5,0⟩]]
    s.word 0 = [.newConnection,.message,.close] ∧ s.word 1 = [.newConnection] ∧ s.conns 5 = some 1 := by
  decide

end FilediskServer.EventLoop
