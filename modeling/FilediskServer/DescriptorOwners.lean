import FilediskServer.Descriptors
import FilediskServer.FileTaskCalls
import FilediskServer.Library.Threads

/-! Who closes a descriptor. The numbers of live connections and of the files that threads
have open stay with their owners, as long as the second close of a connection finds its
number free and nobody sends on a connection that was closed. -/
namespace FilediskServer.Descriptors
open Interaction Bytes Calls FileServer Handles

/-- Every write and send reaches what its number was opened for, no `close` hits anything
else, and every connection in `_conns` has its socket. -/
structure ClosedByOwner (s : State) : Prop where
  uses : ∀ u ∈ s.uses, u.reached = some u.descriptor.2
  closes : ∀ u ∈ s.closes, ∀ o, u.reached = some o → o = u.descriptor.2
  conns : ∀ c ∈ s.server.registered, s.table (s.fdOf c) = some (.socket c)

/-- A connection whose number nobody has closed yet. -/
def State.Live (s : State) (c : Nat) : Prop :=
  c ∈ s.server.registered ∨ s.closing = some (c,.sock)

instance (s : State) (c : Nat) : Decidable (s.Live c) := inferInstanceAs (Decidable (_ ∨ _))

/-- The second of the two closes finds its number still free. -/
def SecondFree (s s' : State) : Prop :=
  ∀ c, s.closing = some (c,.sockIo) → s'.closing = none → s.table (s.fdOf c) = none

/-- A send is made before the loop closes its connection. -/
def SendsLive (s s' : State) : Prop :=
  ∀ u c, s'.uses = s.uses ++ [u] → u.descriptor.2 = .socket c → s.Live c

def Condition (s s' : State) : Prop := SecondFree s s' ∧ SendsLive s s'

inductive Owner
  | con (c : Nat)
  | thread (i : Nat)
  deriving DecidableEq

def State.holds (s : State) : Owner → Option Descriptor
  | .con c => if s.Live c then some (s.conFd c) else none
  | .thread i => s.sfd i

structure Accounted (s : State) : Prop where
  owned : Owned Description.IsSocket s.table s.holds
  accepted : ∀ c, s.Live c → c < s.server.accepted
  opened : ∀ i n o, s.sfd i = some (n,o) → ∃ k < s.opened, o = .file k
  distinct : s.server.registered.Nodup
  gone : ∀ c m, s.closing = some (c,m) → c ∉ s.server.registered

section steps
variable {cfg : Config} {s s' : State} {i c n : Nat} {event : Option (Event signature)}

theorem holds_live (live : s.Live c) : s.holds (.con c) = some (s.conFd c) := if_pos live

theorem live_of_holds {d : Descriptor} (held : s.holds (.con c) = some d) :
    s.Live c ∧ d = s.conFd c := by
  dsimp only [State.holds] at held
  split_ifs at held with live
  exact ⟨live,(Option.some.inj held).symm⟩

theorem holds_same (live : ∀ c, s'.Live c ↔ s.Live c) (conFd : s'.conFd = s.conFd)
    (sfd : s'.sfd = s.sfd) : s'.holds = s.holds := by
  funext owner
  cases owner with
  | con c => simp only [State.holds,live,conFd]
  | thread i => exact congrFun sfd i

theorem holds_con {d : Option Descriptor} (own : s'.holds (.con c) = d)
    (live : ∀ c', c' ≠ c → (s'.Live c' ↔ s.Live c'))
    (conFd : ∀ c', c' ≠ c → s'.conFd c' = s.conFd c') (sfd : s'.sfd = s.sfd) :
    s'.holds = Function.update s.holds (.con c) d := by
  funext owner
  cases owner with
  | con c' =>
    by_cases same : c' = c
    · subst same
      rw [Function.update_self,own]
    · rw [Function.update_of_ne (by simpa using same)]
      simp only [State.holds,live c' same,conFd c' same]
  | thread i =>
    rw [Function.update_of_ne (by simp)]
    exact congrFun sfd i

theorem accounted_start (store : Store) (others : List Nat) : Accounted (.start store others) := by
  have dead (c : Nat) : ¬ (State.start store others).Live c := by
    rintro (inside | closing)
    · cases inside
    · cases closing
  have nothing (owner : Owner) (d : Descriptor) : (State.start store others).holds owner ≠ some d := by
    intro held
    cases owner with
    | con c => exact dead c (live_of_holds held).1
    | thread i => cases held
  refine ⟨⟨fun owner n o held => absurd held (nothing owner _),fun owner _ _ _ _ held =>
    absurd held (nothing owner _),fun n o socket there => ?_⟩,fun c live => absurd live (dead c),
    nofun,List.nodup_nil,nofun⟩
  unfold State.start at there
  dsimp only at there
  split_ifs at there
  cases there
  cases socket

theorem closedByOwner_start (store : Store) (others : List Nat) :
    ClosedByOwner (.start store others) where
  uses u inside := by cases inside
  closes u inside := by cases inside
  conns c inside := by cases inside

/-- A socket in the table is behind the number of a live connection. -/
theorem Accounted.socket (accounted : Accounted s) (there : s.table n = some (.socket c)) :
    s.Live c ∧ s.fdOf c = n := by
  obtain ⟨owner,held⟩ := accounted.owned.owner n (.socket c) trivial there
  cases owner with
  | con c' =>
    obtain ⟨live,same⟩ := live_of_holds held
    cases same
    exact ⟨live,rfl⟩
  | thread i =>
    obtain ⟨k,_,same⟩ := accounted.opened i n _ held
    cases same

theorem Accounted.reaches (accounted : Accounted s) (live : s.Live c) :
    s.table (s.fdOf c) = some (.socket c) :=
  accounted.owned.reach _ _ _ (holds_live live)

/-- A step that leaves the connections as they are. -/
theorem Accounted.server {server : FileServer.State} (accounted : Accounted s)
    (registered : server.registered = s.server.registered)
    (accepted : server.accepted = s.server.accepted) : Accounted {s with server := server} := by
  have live (c : Nat) : State.Live {s with server := server} c ↔ s.Live c := by
    simp [State.Live,registered]
  have holds : State.holds {s with server := server} = s.holds := holds_same live rfl rfl
  refine ⟨?_,fun c alive => ?_,accounted.opened,?_,?_⟩
  · rw [holds]
    exact accounted.owned
  · rw [accepted]
    exact accounted.accepted c ((live c).mp alive)
  · rw [registered]
    exact accounted.distinct
  · rw [registered]
    exact accounted.gone

theorem ClosedByOwner.server {server : FileServer.State}
    (registered : server.registered = s.server.registered) :
    ClosedByOwner {s with server := server} ↔ ClosedByOwner s := by
  constructor
  · intro clean
    exact ⟨clean.uses,clean.closes,registered ▸ clean.conns⟩
  · intro clean
    exact ⟨clean.uses,clean.closes,registered.symm ▸ clean.conns⟩

/-- A step that neither sends nor closes for the second time. -/
theorem condition_quiet (uses : s'.uses = s.uses) (closing : s'.closing = none → s.closing = none) :
    Condition s s' := by
  constructor
  · intro c here ended
    rw [closing ended] at here
    cases here
  · intro u c sent
    rw [uses] at sent
    exact absurd sent (by simp)

theorem clean_use {d : Descriptor} (clean : ClosedByOwner s) :
    ClosedByOwner (s.use d) ↔ s.table d.1 = some d.2 := by
  constructor
  · intro clean
    exact clean.uses ⟨d,s.table d.1⟩ (List.mem_append_right _ List.mem_cons_self)
  · intro reached
    refine ⟨fun u inside => ?_,clean.closes,clean.conns⟩
    rcases List.mem_append.mp inside with old | new
    · exact clean.uses u old
    · rw [List.mem_singleton.mp new]
      exact reached

theorem clean_close {d : Descriptor} (clean : ClosedByOwner s)
    (own : ∀ o, s.table d.1 = some o → o = d.2)
    (others : ∀ c ∈ s.server.registered, s.fdOf c = d.1 → s.table d.1 = none) :
    ClosedByOwner (s.close d) := by
  refine ⟨clean.uses,fun u inside => ?_,fun c inside => ?_⟩
  · rcases List.mem_append.mp inside with old | new
    · exact clean.closes u old
    · rw [List.mem_singleton.mp new]
      exact own
  · have reached := clean.conns c inside
    have apart : s.fdOf c ≠ d.1 := by
      intro same
      rw [same,others c inside same] at reached
      cases reached
    exact (Function.update_of_ne apart ..).trans reached

/-- What a step of `process` does to the table. -/
inductive After (s : State) (i c n : Nat) (event : Option (Event signature)) : State → Prop
  | quiet : After s i c n event s
  | send : After s i c n event (s.use (s.conFd c))
  | opens (opened : opens event) : After s i c n event {s with
      table := s.table.assign n (.file s.opened), opened := s.opened + 1,
      sfd := Function.update s.sfd i (some (n,.file s.opened))}
  | fails : After s i c n event {s with sfd := Function.update s.sfd i none}
  | write {d : Descriptor} (held : s.sfd i = some d) : After s i c n event (s.use d)
  | close {d : Descriptor} (held : s.sfd i = some d) :
      After s i c n event {s.close d with sfd := Function.update s.sfd i none}

theorem after_cases (s : State) (i c n : Nat) (event : Option (Event signature)) :
    After s i c n event (s.after i c n event) := by
  unfold State.after
  split
  · exact .send
  · exact .opens rfl
  · exact .fails
  · split
    next held => exact .write held
    next => exact .quiet
  · split
    next held => exact .close held
    next => exact .quiet
  · exact .quiet

theorem Accounted.file {d : Descriptor} (accounted : Accounted s) (held : s.sfd i = some d) :
    s.table d.1 = some d.2 ∧ ¬ d.2.IsSocket ∧ ∀ c ∈ s.server.registered, s.fdOf c ≠ d.1 := by
  have reached := accounted.owned.reach (.thread i) d.1 d.2 held
  obtain ⟨k,_,file⟩ := accounted.opened i d.1 d.2 held
  refine ⟨reached,by rw [file]; exact id,fun c inside same => ?_⟩
  have socket := accounted.reaches (.inl inside)
  rw [same,reached,file] at socket
  cases socket

theorem owned_of_sfd {d : Option Descriptor} (sfd : s'.sfd = Function.update s.sfd i d)
    (live : ∀ c, s'.Live c ↔ s.Live c) (fdOf : s'.fdOf = s.fdOf)
    (owned : Owned Description.IsSocket s'.table (Function.update s.holds (.thread i) d)) :
    Owned Description.IsSocket s'.table s'.holds := by
  have holds : s'.holds = Function.update s.holds (.thread i) d := by
    funext owner
    cases owner with
    | con c =>
      rw [Function.update_of_ne (by simp)]
      simp only [State.holds,live,State.conFd,fdOf]
    | thread j =>
      simp only [State.holds,sfd]
      by_cases same : j = i
      · subst same
        rw [Function.update_self,Function.update_self]
      · rw [Function.update_of_ne same,Function.update_of_ne (by simpa using same)]
        rfl
  rwa [holds]

theorem Accounted.after (accounted : Accounted s) (lowest : opens event → Lowest s.table n) :
    Accounted (s.after i c n event) := by
  have forgets (m : Nat) (o : Description) (held : s.holds (.thread i) = some (m,o)) :
      ¬ o.IsSocket :=
    (accounted.file held).2.1
  have opened (d : Option Descriptor) (bound : Nat) (grown : s.opened ≤ bound)
      (file : ∀ m o, d = some (m,o) → ∃ k < bound, o = .file k) (j m : Nat) (o : Description)
      (held : Function.update s.sfd i d j = some (m,o)) : ∃ k < bound, o = .file k := by
    by_cases same : j = i
    · subst same
      rw [Function.update_self] at held
      exact file m o held
    · rw [Function.update_of_ne same] at held
      obtain ⟨k,old,is⟩ := accounted.opened j m o held
      exact ⟨k,old.trans_le grown,is⟩
  generalize becomes : s.after i c n event = s'
  have cases := after_cases s i c n event
  rw [becomes] at cases
  cases cases with
  | quiet | send | write => exact ⟨accounted.owned,accounted.accepted,accounted.opened,accounted.distinct,accounted.gone⟩
  | opens opening =>
    refine ⟨?_,accounted.accepted,opened _ _ (Nat.le_succ _) ?_,accounted.distinct,accounted.gone⟩
    · have new (owner : Owner) (m : Nat) : s.holds owner ≠ some (m,.file s.opened) := by
        intro held
        cases owner with
        | con c' => cases (live_of_holds held).2
        | thread j =>
          obtain ⟨k,old,same⟩ := accounted.opened j m _ held
          cases same
          exact absurd old (lt_irrefl _)
      exact owned_of_sfd rfl (fun _ => Iff.rfl) rfl
        (accounted.owned.assign (lowest opening).free new forgets)
    · intro m o same
      cases same
      exact ⟨s.opened,Nat.lt_succ_self _,rfl⟩
  | fails =>
    exact ⟨owned_of_sfd rfl (fun _ => Iff.rfl) rfl (accounted.owned.forget forgets),
      accounted.accepted,opened _ _ le_rfl nofun,accounted.distinct,accounted.gone⟩
  | @close d held =>
    exact ⟨owned_of_sfd rfl (fun _ => Iff.rfl) rfl (accounted.owned.release held),
      accounted.accepted,opened _ _ le_rfl nofun,accounted.distinct,accounted.gone⟩

/-- A step of a thread is as it should be just when it does not send too late. -/
theorem after_owned (accounted : Accounted s) (clean : ClosedByOwner s)
    (lowest : opens event → Lowest s.table n) :
    SendsLive s (s.after i c n event) ↔ ClosedByOwner (s.after i c n event) := by
  have silent {s' : State} (uses : s'.uses = s.uses) : SendsLive s s' := by
    intro u c sent
    rw [uses] at sent
    exact absurd sent (by simp)
  generalize becomes : s.after i c n event = s'
  have cases := after_cases s i c n event
  rw [becomes] at cases
  cases cases with
  | quiet => exact ⟨fun _ => clean,fun _ => silent rfl⟩
  | fails => exact ⟨fun _ => ⟨clean.uses,clean.closes,clean.conns⟩,fun _ => silent rfl⟩
  | send =>
    rw [clean_use clean]
    constructor
    · intro sends
      exact accounted.reaches (sends _ c rfl rfl)
    · intro reached u c' sent is
      obtain rfl := List.singleton_inj.mp (List.append_cancel_left sent)
      cases is
      exact (accounted.socket reached).1
  | @write d held =>
    rw [clean_use clean]
    obtain ⟨reached,file,_⟩ := accounted.file held
    refine ⟨fun _ => reached,fun _ u c' sent is => ?_⟩
    obtain rfl := List.singleton_inj.mp (List.append_cancel_left sent)
    rw [show d.2 = _ from is] at file
    exact absurd trivial file
  | opens opening =>
    refine ⟨fun _ => ⟨clean.uses,clean.closes,fun c' inside => ?_⟩,fun _ => silent rfl⟩
    have reached := clean.conns c' inside
    have apart : s.fdOf c' ≠ n := by
      intro same
      rw [same,(lowest opening).free] at reached
      cases reached
    exact (Function.update_of_ne apart ..).trans reached
  | @close d held =>
    obtain ⟨reached,_,apart⟩ := accounted.file held
    have closed := clean_close (d := d) clean (fun o there => Option.some.inj (there.symm.trans reached))
      fun c' inside same => absurd same (apart c' inside)
    exact ⟨fun _ => ⟨closed.uses,closed.closes,closed.conns⟩,fun _ => silent rfl⟩

/-- A number that is free is not the number of a registered connection. -/
theorem fresh_number (clean : ClosedByOwner s) (lowest : Lowest s.table n) :
    (∀ c ∈ s.server.registered, s.fdOf c ≠ n) ∧
      s.server.registered.filter (s.fdOf · ≠ n) = s.server.registered ∧
      s.server.registered.find? (s.fdOf · = n) = none := by
  have apart (c : Nat) (inside : c ∈ s.server.registered) : s.fdOf c ≠ n := by
    intro same
    have reached := clean.conns c inside
    rw [same,lowest.free] at reached
    cases reached
  exact ⟨apart,List.filter_eq_self.mpr fun c inside => by simpa using apart c inside,
    List.find?_eq_none.mpr fun c inside => by simpa using apart c inside⟩

theorem accept_owned (accounted : Accounted s) (clean : ClosedByOwner s) (idle : s.closing = none)
    (lowest : Lowest s.table n) (rest : List Fd) :
    ClosedByOwner (s.accept n rest) ∧ Accounted (s.accept n rest) := by
  obtain ⟨apart,all,none⟩ := fresh_number clean lowest
  set s' := s.accept n rest
  have old (c : Nat) (inside : c ∈ s.server.registered) : c ≠ s.server.accepted :=
    (accounted.accepted c (.inl inside)).ne
  have registered : s'.server.registered = s.server.accepted :: s.server.registered :=
    congrArg (s.server.accepted :: ·) all
  have closing : s'.closing = Option.none := by
    dsimp only [s',State.accept]
    rw [none]
    rfl
  have live (c : Nat) : s'.Live c ↔ c = s.server.accepted ∨ s.Live c := by
    simp [State.Live,registered,closing,idle]
  have holds : s'.holds = Function.update s.holds (.con s.server.accepted)
      (some (n,.socket s.server.accepted)) := by
    refine holds_con ?_ (fun c same => (live c).trans (or_iff_right same)) (fun c same => ?_) rfl
    · rw [holds_live ((live _).mpr (.inl rfl))]
      simp [State.conFd,s',State.accept]
    · simp [State.conFd,s',State.accept,same]
  constructor
  · refine ⟨clean.uses,clean.closes,fun c inside => ?_⟩
    rw [registered] at inside
    rcases List.mem_cons.mp inside with rfl | inside
    · simp [s',State.accept]
    · have number : s'.fdOf c = s.fdOf c := Function.update_of_ne (old c inside) ..
      rw [number]
      exact (Function.update_of_ne (apart c inside) ..).trans (clean.conns c inside)
  · refine ⟨?_,fun c alive => ?_,accounted.opened,?_,fun c m here => ?_⟩
    · rw [holds]
      refine accounted.owned.assign lowest.free (fun owner m held => ?_) fun m o held => ?_
      · cases owner with
        | con c =>
          obtain ⟨alive,same⟩ := live_of_holds held
          cases same
          exact absurd (accounted.accepted _ alive) (lt_irrefl _)
        | thread i =>
          obtain ⟨k,_,same⟩ := accounted.opened i m _ held
          cases same
      · exact absurd (accounted.accepted _ (live_of_holds held).1) (lt_irrefl _)
    · rcases (live c).mp alive with rfl | alive
      · exact Nat.lt_succ_self _
      · exact (accounted.accepted c alive).trans (Nat.lt_succ_self _)
    · rw [registered]
      exact List.nodup_cons.mpr ⟨fun inside => old _ inside rfl,accounted.distinct⟩
    · rw [closing] at here
      cases here

/-- The loop takes a connection out of `_conns` and its destructor comes next. -/
theorem closed_owned (accounted : Accounted s) (clean : ClosedByOwner s) (idle : s.closing = none)
    (found : c ∈ s.server.registered) {server : FileServer.State}
    (registered : server.registered = s.server.registered.erase c)
    (accepted : server.accepted = s.server.accepted) :
    ClosedByOwner {s with server := server, closing := some (c,.sock)} ∧
      Accounted {s with server := server, closing := some (c,.sock)} := by
  set s' : State := {s with server := server, closing := some (c,.sock)}
  have remains (c' : Nat) : c' ∈ server.registered ↔ c' ≠ c ∧ c' ∈ s.server.registered := by
    rw [registered]
    exact accounted.distinct.mem_erase_iff
  have live (c' : Nat) : s'.Live c' ↔ s.Live c' := by
    by_cases same : c' = c
    · subst same
      exact ⟨fun _ => .inl found,fun _ => .inr rfl⟩
    · simp [State.Live,s',remains,idle,same,Ne.symm same]
  have holds : s'.holds = s.holds := holds_same live rfl rfl
  refine ⟨⟨clean.uses,clean.closes,fun c' inside => clean.conns c' ((remains c').mp inside).2⟩,
    ?_,fun c' alive => ?_,accounted.opened,?_,fun c' m here => ?_⟩
  · rw [holds]
    exact accounted.owned
  · have before := accounted.accepted c' ((live c').mp alive)
    rwa [← accepted] at before
  · rw [show s'.server.registered = _ from registered]
    exact accounted.distinct.erase c
  · cases here
    exact fun inside => ((remains c).mp inside).1 rfl

/-- The first of the two closes gives the socket up. -/
theorem closeSock_owned (accounted : Accounted s) (clean : ClosedByOwner s)
    (here : s.closing = some (c,.sock)) :
    ClosedByOwner {s.close (s.conFd c) with closing := some (c,.sockIo)} ∧
      Accounted {s.close (s.conFd c) with closing := some (c,.sockIo)} := by
  set s' : State := {s.close (s.conFd c) with closing := some (c,.sockIo)}
  have own : s.Live c := .inr here
  have reached := accounted.reaches own
  have out := accounted.gone c .sock here
  have closed : ClosedByOwner (s.close (s.conFd c)) := by
    apply clean_close clean
    · intro o there
      exact Option.some.inj (there.symm.trans reached)
    · intro c' inside same
      have theirs := accounted.reaches (.inl inside)
      rw [same] at theirs
      cases theirs.symm.trans reached
      exact absurd inside out
  have live (c' : Nat) : s'.Live c' ↔ c' ≠ c ∧ s.Live c' := by
    constructor
    · rintro (inside | ended)
      · exact ⟨fun same => out (same ▸ inside),.inl inside⟩
      · cases ended
    · rintro ⟨other,inside | closing⟩
      · exact .inl inside
      · cases here.symm.trans closing
        exact absurd rfl other
  have holds : s'.holds = Function.update s.holds (.con c) none := by
    refine holds_con ?_ (fun c' same => (live c').trans (and_iff_right same)) (fun _ _ => rfl) rfl
    exact if_neg fun alive => ((live c).mp alive).1 rfl
  refine ⟨⟨closed.uses,closed.closes,closed.conns⟩,?_,fun c' alive => ?_,accounted.opened,
    accounted.distinct,fun c' m closing => ?_⟩
  · rw [holds]
    exact accounted.owned.release (holds_live own)
  · exact accounted.accepted c' ((live c').mp alive).2
  · cases closing
    exact out

/-- The second close is as it should be just when the number is still free. -/
theorem closeSockIo_owned (accounted : Accounted s) (clean : ClosedByOwner s)
    (here : s.closing = some (c,.sockIo)) :
    let s' : State := {s.close (s.conFd c) with closing := none}
    (Condition s s' ↔ ClosedByOwner s') ∧ (Condition s s' → Accounted s') := by
  intro s'
  have out := accounted.gone c .sockIo here
  have live (c' : Nat) : s'.Live c' ↔ s.Live c' := by simp [State.Live,s',State.close,here]
  have dead : ¬ s.Live c := by
    rintro (inside | closing)
    · exact out inside
    · cases here.symm.trans closing
  have silent : SendsLive s s' := fun u c' sent => absurd sent (by simp [s',State.close])
  constructor
  · constructor
    · intro condition
      have free := condition.1 c here rfl
      have closed := clean_close (d := s.conFd c) clean
        (fun o there => by cases (there.symm.trans free)) fun _ _ _ => free
      exact ⟨closed.uses,closed.closes,closed.conns⟩
    · intro closed
      refine ⟨fun c' here' _ => ?_,silent⟩
      cases here.symm.trans here'
      cases reached : s.table (s.fdOf c) with
      | none => rfl
      | some o =>
        -- The socket is gone, so what is behind the number now is another's.
        have is := closed.closes ⟨s.conFd c,s.table (s.fdOf c)⟩ (List.mem_append_right _ List.mem_cons_self)
          o reached
        subst is
        exact absurd (accounted.socket reached).1 dead
  · intro condition
    have free := condition.1 c here rfl
    have table : s'.table = s.table := release_free free
    have holds : s'.holds = s.holds := holds_same live rfl rfl
    refine ⟨?_,fun c' alive => accounted.accepted c' ((live c').mp alive),accounted.opened,
      accounted.distinct,nofun⟩
    rw [table,holds]
    exact accounted.owned

theorem after_kept (s : State) (i c n : Nat) (event : Option (Event signature)) :
    (s.after i c n event).server = s.server ∧ (s.after i c n event).closing = s.closing := by
  generalize becomes : s.after i c n event = s'
  have cases := after_cases s i c n event
  rw [becomes] at cases
  cases cases <;> exact ⟨rfl,rfl⟩

theorem loop_accepted {s s' : FileServer.State} (step : LoopStep cfg s s')
    (same : s'.registered = s.registered) : s'.accepted = s.accepted := by
  cases step with
  | accept => exact absurd same (List.cons_ne_self _ _)
  | epollWait | roundOver | acceptFails | unknown | closed | onMessage | push | leave => rfl

/-- One step keeps the numbers with their owners just when it meets the condition. -/
theorem step_owned (accounted : Accounted s) (clean : ClosedByOwner s)
    (step : DescriptorStep cfg s s') :
    (Condition s s' ↔ ClosedByOwner s') ∧ (Condition s s' → Accounted s') := by
  have quiet {server : FileServer.State} (registered : server.registered = s.server.registered)
      (accepted : server.accepted = s.server.accepted) :
      (Condition s {s with server := server} ↔ ClosedByOwner {s with server := server}) ∧
        (Condition s {s with server := server} → Accounted {s with server := server}) :=
    ⟨⟨fun _ => (ClosedByOwner.server registered).mpr clean,fun _ => condition_quiet rfl id⟩,
      fun _ => accounted.server registered accepted⟩
  have always {s' : State} (uses : s'.uses = s.uses) (closing : s'.closing = none → s.closing = none)
      (kept : ClosedByOwner s' ∧ Accounted s') :
      (Condition s s' ↔ ClosedByOwner s') ∧ (Condition s s' → Accounted s') :=
    ⟨⟨fun _ => kept.1,fun _ => condition_quiet uses closing⟩,fun _ => kept.2⟩
  cases step with
  | client step =>
    cases step with
    | connect | send | shut | close => exact quiet rfl rfl
  | pop | finish | terminate | sigpipe => exact quiet rfl rfl
  | loop idle step same => exact quiet same (loop_accepted step same)
  | accept idle here waiting lowest =>
    exact always rfl (fun _ => idle) (accept_owned accounted clean idle lowest _)
  | closed idle here found =>
    exact always rfl (fun _ => idle) (closed_owned accounted clean idle found rfl rfl)
  | closeSock here => exact always rfl nofun (closeSock_owned accounted clean here)
  | closeSockIo here => exact closeSockIo_owned accounted clean here
  | @process i task later n job job' o event w running place object step lowest =>
    have kept := after_kept s i o.con n event
    have registered : (processed s.server i task o.con job' event w).registered =
        (s.after i o.con n event).server.registered := by rw [kept.1]; rfl
    have accepted : (processed s.server i task o.con job' event w).accepted =
        (s.after i o.con n event).server.accepted := by rw [kept.1]; rfl
    refine ⟨?_,fun _ => (accounted.after lowest).server registered accepted⟩
    rw [ClosedByOwner.server registered,← after_owned accounted clean lowest]
    refine ⟨fun condition => condition.2,fun sends => ⟨fun c here ended => ?_,sends⟩⟩
    rw [show (s.after i o.con n event).closing = none from ended] at kept
    cases here.symm.trans kept.2.symm

end steps

section files
variable {cfg : Config} {s s' : State} {md5 : Bytes → CusInfo.Digest}

/-- Whether `sfd` is an open file. -/
def noteFile : Bool → Event signature → Bool
  | _, ⟨.openFile _, fd⟩ => fd.isSome
  | _, ⟨.close (some _), _⟩ => false
  | held, _ => held

def WithFile (held : Bool) : Call → Prop
  | .writeFile (some _) _ | .close (some _) => held = true
  | _ => True

def Fileless : Call → Prop
  | .openFile _ | .writeFile .. | .close _ => False
  | _ => True

abbrev KeepsFile {α : Type} (held : Bool) (p : Job α) (post : Except Halt α → Bool → Prop) : Prop :=
  Wp (Noting noteFile) WithFile p post held

theorem note_fileless {c : Call} {held : Bool} (is : Fileless c) :
    WithFile held c ∧ ∀ r, noteFile held ⟨c,r⟩ = held := by
  cases c with
  | openFile | writeFile | close => exact is.elim
  | read | write | redis | query | mmap | munmap | alloc | array | uninit | beyond =>
    exact ⟨trivial,fun _ => rfl⟩

theorem keepsFile_end {α : Type} {p : Job α} {held : Bool} {post : Except Halt α → Bool → Prop}
    (only : Only Fileless p) (after : ∀ out, post out held) : KeepsFile held p post := by
  apply wp_only (K := (· = held)) only rfl
  · intro g c r g' same is answered
    subst same answered
    exact (note_fileless is).2 r
  · intro g c _ is
    exact (note_fileless is).1
  · intro out g same
    subst same
    exact after out

theorem keepsFile_only {α β : Type} {p : Job α} {f : α → Job β} {held : Bool}
    {post : Except Halt β → Bool → Prop} (only : Only Fileless p) (thrown : ∀ e held, post (.error e) held)
    (rest : ∀ a, KeepsFile held (f a) post) : KeepsFile held (p.bind f) post := by
  apply wp_bind
  apply keepsFile_end only
  intro out
  cases out with
  | ok a => exact rest a
  | error e => exact thrown e held

theorem keepsFile_ask {β : Type} {c : Call} {f : c.Res → Job β} {held : Bool}
    {post : Except Halt β → Bool → Prop} (is : Fileless c) (rest : ∀ r, KeepsFile held (f r) post) :
    KeepsFile held ((ask c).bind f) post := by
  refine ⟨(note_fileless is).1,fun r g answered => ?_⟩
  subst answered
  rw [(note_fileless is).2 r]
  exact rest r

/-- `write` and `close` come after an `open` that succeeded. -/
theorem keepsFile_store {path b : Bytes} {held : Bool} {f : Job Bytes}
    {post : Except Halt Bytes → Bool → Prop} (rest : ∀ held, KeepsFile held f post) :
    KeepsFile held (do
      let sfd ← ask (.openFile path)
      ask (.writeFile sfd b)
      ask (.close sfd)
      f) post := by
  refine ⟨trivial,fun sfd g opened => ?_⟩
  subst opened
  cases sfd with
  | none =>
    refine ⟨trivial,fun _ g same => ?_⟩
    subst same
    refine ⟨trivial,fun _ g same => ?_⟩
    subst same
    exact rest _
  | some file =>
    refine ⟨rfl,fun _ g same => ?_⟩
    subst same
    refine ⟨rfl,fun _ g same => ?_⟩
    subst same
    exact rest _

theorem keepsFile_savefile {fh : CusInfo.Fileheader} {userid : UInt64} {held : Bool} :
    KeepsFile held (FileTask.savefile md5 fh userid) (fun _ _ => True) := by
  apply keepsFile_only (FileTask.only_isfileexits trivial trivial) fun _ _ => trivial
  intro isexits
  apply keepsFile_only (FileTask.only_send (fun _ _ => trivial) _ _) fun _ _ => trivial
  intro _
  split_ifs
  · trivial
  · trivial
  · apply keepsFile_ask (by trivial)
    intro memory
    match memory with
    | none => trivial
    | some fresh =>
      apply keepsFile_only (FileTask.only_receiveChecked (fun _ => trivial) (fun _ _ => trivial) _)
        fun _ _ => trivial
      intro b
      exact keepsFile_store fun _ => trivial

theorem keepsFile_sendFiles {fh : CusInfo.Fileheader} {filename : Bytes}
    (list : List (Int × Bytes × UInt64)) {held : Bool} :
    KeepsFile held (FileTask.sendFiles fh filename list) (fun _ _ => True) := by
  induction list generalizing held with
  | nil => trivial
  | cons row rest ih =>
    obtain ⟨index,_,filesize⟩ := row
    refine ⟨trivial,fun sfd g opened => ?_⟩
    subst opened
    cases sfd with
    | none => trivial
    | some file =>
      apply keepsFile_ask (by trivial)
      intro data
      apply keepsFile_ask (by trivial)
      intro raw
      apply keepsFile_only (FileTask.only_send (fun _ _ => trivial) _ _) fun _ _ => trivial
      intro _
      apply keepsFile_only (FileTask.only_send (fun _ _ => trivial) _ _) fun _ _ => trivial
      intro _
      apply keepsFile_ask (by trivial)
      intro _
      refine ⟨rfl,fun _ g same => ?_⟩
      subst same
      exact ih

theorem keepsFile_process {held : Bool} :
    KeepsFile held (FileTask.process md5) (fun _ _ => True) := by
  apply keepsFile_only (FileTask.only_receive (fun _ => trivial) _ _) fun _ _ => trivial
  intro buff
  apply keepsFile_ask (by trivial)
  intro beyond
  apply keepsFile_only (FileTask.only_validate trivial) fun _ _ => trivial
  intro found
  apply keepsFile_only (FileTask.only_send (fun _ _ => trivial) _ _) fun _ _ => trivial
  intro _
  dsimp only
  split_ifs
  · apply keepsFile_ask (by trivial)
    intro fits
    match fits with
    | false => trivial
    | true =>
    apply keepsFile_only (FileTask.only_receive (fun _ => trivial) _ _) fun _ _ => trivial
    intro filename
    apply keepsFile_only (FileTask.only_receive (fun _ => trivial) _ _) fun _ _ => trivial
    intro fheaderinfo
    split_ifs
    · apply wp_bind
      apply wp_mono _ keepsFile_savefile
      intro out held _
      cases out with
      | error e => trivial
      | ok path =>
        apply keepsFile_ask (by trivial)
        intro _
        apply keepsFile_only (FileTask.only_redis trivial) fun _ _ => trivial
        intro _
        exact keepsFile_end (FileTask.only_redis trivial) fun _ => trivial
    · apply keepsFile_only (FileTask.only_getfilelist trivial) fun _ _ => trivial
      intro list
      exact keepsFile_sendFiles list
  · trivial
  · trivial

/-- Every thread with a job has `sfd` as the job takes it to be. -/
def Tracks (s : State) : Prop := ∀ i task job, s.server.threads i = some (task,job) →
  KeepsFile (s.sfd i).isSome job (fun _ _ => True)

theorem after_sfd_other {i j c n : Nat} {event : Option (Event signature)} (other : j ≠ i) :
    (s.after i c n event).sfd j = s.sfd j := by
  generalize becomes : s.after i c n event = s'
  have cases := after_cases s i c n event
  rw [becomes] at cases
  cases cases with
  | quiet | send | write => rfl
  | opens | fails | close => exact Function.update_of_ne other ..

theorem after_sfd {i c n : Nat} {e : Event signature} :
    ((s.after i c n (some e)).sfd i).isSome = noteFile (s.sfd i).isSome e := by
  obtain ⟨call,r⟩ := e
  cases call with
  | openFile path => cases r <;> simp [State.after,noteFile]
  | writeFile fd b =>
    cases fd with
    | none => rfl
    | some f =>
      dsimp only [State.after]
      split <;> rfl
  | close fd =>
    cases fd with
    | none => rfl
    | some f =>
      dsimp only [State.after]
      split
      next => simp [noteFile]
      next none => simp [noteFile,none]
  | read | write | redis | query | mmap | munmap | alloc | array | uninit | beyond => rfl

theorem Tracks.update {x : Option (Nat × Job Unit)} (tracks : Tracks s)
    (threads : s'.server.threads = Function.update s.server.threads i x)
    (others : ∀ j, j ≠ i → s'.sfd j = s.sfd j)
    (own : ∀ task job, x = some (task,job) → KeepsFile (s'.sfd i).isSome job (fun _ _ => True)) :
    Tracks s' := by
  intro j task job running
  rw [threads] at running
  by_cases same : j = i
  · subst same
    rw [Function.update_self] at running
    exact own task job running
  · rw [Function.update_of_ne same] at running
    rw [others j same]
    exact tracks j task job running

theorem tracks_step (tracks : Tracks s) (step : DescriptorStep cfg s s') : Tracks s' := by
  cases step with
  | client step => cases step <;> exact tracks
  | accept | closed | closeSock | closeSockIo | terminate | sigpipe => exact tracks
  | loop _ step => cases step <;> exact tracks
  | @pop i task =>
    refine tracks.update rfl (fun _ _ => rfl) ?_
    intro task' job same
    cases same
    exact keepsFile_process
  | finish => exact tracks.update rfl (fun _ _ => rfl) nofun
  | @process i task later n job job' o event w running place object step lowest =>
    refine tracks.update rfl (fun _ other => after_sfd_other other) ?_
    intro task' job₁ same
    cases same
    have before := tracks i task job running
    cases step with
    | call answered =>
      dsimp only
      rw [after_sfd]
      exact before.2 _ _ rfl
    | loop => exact (wp_step .loop before).2

/-- Along every run, a thread that writes a file or closes it has it open. -/
theorem file_open {store : Store} {others : List Nat} {run : List State}
    (steps : (State.start store others :: run).IsChain (Steps cfg)) :
    ∀ s ∈ State.start store others :: run, ∀ i task c k, s.server.threads i = some (task,.call c k) →
      WithFile (s.sfd i).isSome c := by
  have tracked := always_of_kept steps (P := Tracks) nofun fun _ _ tracks step =>
    tracks_step tracks step.2
  intro s inside i task c k running
  exact (tracked s inside i task _ running).1

/-- As long as numbers are with their owners, a step is one of the server or goes on with a
destructor. -/
theorem step_server (clean : ClosedByOwner s) (step : Steps cfg s s') :
    s'.server = s.server ∨ ServerStep cfg s.server s'.server := by
  obtain ⟨up,step⟩ := step
  cases step with
  | client step => exact .inr (.client up step)
  | @accept rest n idle here waiting lowest =>
    refine .inr (.loop up ?_)
    have kept := (fresh_number clean lowest).2.1
    simp only [State.accept,kept]
    exact .accept here waiting
  | closed idle here found isClosed => exact .inr (.loop up (.closed here found isClosed))
  | closeSock | closeSockIo => exact .inl rfl
  | loop idle step => exact .inr (.loop up step)
  | pop thread idle first => exact .inr (.thread up (.pop thread idle first))
  | process running place object step => exact .inr (.thread up (.process running place object step))
  | finish running => exact .inr (.thread up (.finish running))
  | terminate running => exact .inr (.thread up (.terminate running))
  | sigpipe running place object gone => exact .inr (.thread up (.sigpipe running place object gone))

end files

/-- Along every run, numbers are closed by their owners and reach what they were opened for
just when every step meets the condition. -/
theorem closedByOwner_iff {cfg : Config} {store : Store} {others : List Nat} {run : List State}
    (steps : (State.start store others :: run).IsChain (Steps cfg)) :
    (∀ s ∈ State.start store others :: run, ClosedByOwner s) ↔
      (State.start store others :: run).IsChain Condition :=
  always_iff_guarded steps (accounted_start store others) (closedByOwner_start store others)
    fun _ _ accounted clean step => step_owned accounted clean step.2

section sample

def sampleSessions : Store := ⟨⟨fun key => if key = ascii "s1" then
  some ⟨.hash [(ascii "userid",ascii "1")],false⟩ else none,[]⟩,[],fun _ => none⟩

def sampleState : State := .start sampleSessions [0,1,2]

def sampleRequest : Bytes := CusInfo.recordOf (ascii "s1") 1 ++ ascii "f" ++
  CusInfo.Fileheader.bytes ⟨0,fun _ => 0,1,true,1⟩ ++ ascii "a"

/-- Two clients connect. The second sends an upload, of which thread 0 does everything before
the `open`, and the first has closed its side. -/
def sampleBefore : List Act :=
  .append [.connect,.connect,.epollWait [.listenfd],.loop 3,.loop 0,.epollWait [.listenfd],.loop 4,
    .loop 0,.send 1 sampleRequest,.shut 0,.epollWait [.connfd 1,.connfd 0],.loop 0,.loop 0,.loop 0]
    (.append (.replicate 26 (.thread 0 0)) [.loop 0])

/-- Both closes of the first connection come before the `open`. -/
def sampleOrderly : List Act :=
  sampleBefore.append [.destroy,.destroy,.thread 0 3,.thread 0 0,.thread 0 0]

/-- The `open` and later a third client get the number between the two closes. -/
def sampleReused : List Act :=
  sampleBefore.append [.destroy,.thread 0 3,.destroy,.connect,.loop 0,.epollWait [.listenfd],.loop 3,
    .thread 0 0]

theorem sample_acts {acts : List Act} {check : State → Bool}
    (checked : (trail (State.act sampleConfig) acts sampleState).any (·.any check) = true) :
    ∃ run, (sampleState :: run).IsChain (Steps sampleConfig) ∧ ∃ s ∈ run, check s = true := by
  obtain ⟨run,went,found⟩ := Option.any_eq_true .. |>.mp checked
  exact ⟨run,trail_chain (fun _ _ _ => act_sound rfl) went,List.any_eq_true.mp found⟩

end sample

theorem sample_closedByOwner : ∃ run, (∃ s ∈ run,
    Use.mk (3,.file 0) (some (.file 0)) ∈ s.uses ∧ s.closes.length = 3) ∧
    ((∀ s ∈ sampleState :: run, ClosedByOwner s) ↔ (sampleState :: run).IsChain Condition) := by
  obtain ⟨run,steps,s,inside,checked⟩ := @sample_acts sampleOrderly
    (fun s => decide (Use.mk (3,.file 0) (some (.file 0)) ∈ s.uses ∧ s.closes.length = 3))
    (by decide +kernel)
  exact ⟨run,⟨s,inside,by simpa using checked⟩,closedByOwner_iff steps⟩

/-- What was to go to a file is sent to a client. -/
theorem write_to_client_run : ¬ ∀ (cfg : Config) (store : Store) (others : List Nat) (run : List State),
    (State.start store others :: run).IsChain (Steps cfg) →
    ∀ s ∈ State.start store others :: run, ∀ u ∈ s.uses, u.reached = some u.descriptor.2 := by
  intro reaches
  obtain ⟨run,steps,s,inside,checked⟩ := @sample_acts sampleReused
    (fun s => decide (Use.mk (3,.file 0) (some (.socket 2)) ∈ s.uses)) (by decide +kernel)
  have right := reaches _ _ _ run steps s (List.mem_cons_of_mem _ inside) _
    (of_decide_eq_true checked)
  cases right

end FilediskServer.Descriptors
