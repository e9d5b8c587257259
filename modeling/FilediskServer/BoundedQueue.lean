import FilediskServer.QueueRuns
import FilediskServer.Library.Logs

/-! Any number of threads that share the queue through `push`, `pop` and `wakeup`. -/
namespace FilediskServer.TaskQueue
open Interaction PoolCalls

/-- Every thread calls what it is asked to, as far as `accepts` goes. -/
def clients {ι τ : Type} (queSize : Nat) (accepts : ι → QueueCall τ → Bool) : Threads ι τ :=
  Threads.new fun i => client queSize (accepts i)

section sample

/-- Two threads pop before the third pushes one task. -/
def sampleScript : Script (Fin 3) Nat where
  all := [0,1,2]
  asked i g :=
    if i = 0 then if g.pushed.length < 1 then some (.push (some 7)) else none
    else if g.taken.length < 1 then some .pop else none
  messages _ := []

def sampleWaits : List (Fin 3) := List.replicate 7 1 ++ List.replicate 7 2 ++ List.replicate 8 0

def samplePlayed (accepts : Fin 3 → QueueCall Nat → Bool) (schedule : List (Fin 3)) :
    Option (Threads (Fin 3) Nat) :=
  (clients 1 accepts).play sampleScript.respond schedule

theorem sample_moves {accepts : Fin 3 → QueueCall Nat → Bool} {schedule : List (Fin 3)}
    {s : Threads (Fin 3) Nat} (played : samplePlayed accepts schedule = some s) :
    Relation.ReflTransGen Moves (clients 1 accepts) s :=
  Script.play_moves (by decide) played

end sample

section pushes
variable {ι τ α : Type}

def taskOf : QueueCall τ → Option (ElemType τ)
  | .push task => some task
  | _ => none

def askedToPush : Event (signature ι τ) → Option (ElemType τ)
  | ⟨.next,request⟩ => request.bind taskOf
  | _ => none

def enqueued : Event (signature ι τ) → Option (ElemType τ)
  | ⟨.enqueue task,_⟩ => some task
  | _ => none

/-- What a thread was asked to push it has put in the queue, in that order, but for what is pending. -/
def Pushes (trace : List (Event (signature ι τ))) (pending : Option (ElemType τ)) : Prop :=
  trace.filterMap askedToPush = trace.filterMap enqueued ++ pending.toList

def Due (trace : List (Event (signature ι τ))) : Call ι τ → Prop
  | .next => Pushes trace none
  | .enqueue task => Pushes trace (some task)
  | _ => True

def Quiet : (signature ι τ).Op → Prop
  | .next | .enqueue _ => False
  | _ => True

/-- The calls of a job, whatever is answered. -/
abbrev Says (job : Job ι τ α) (post : Except Empty α → List (Event (signature ι τ)) → Prop)
    (trace : List (Event (signature ι τ))) : Prop :=
  Wp (Answering fun _ _ => True) Due job post trace

variable {trace : List (Event (signature ι τ))} {pending : Option (ElemType τ)} {task : ElemType τ}

theorem pushes_snoc (e : Event (signature ι τ)) : Pushes (trace ++ [e]) pending ↔
    trace.filterMap askedToPush ++ (askedToPush e).toList =
      trace.filterMap enqueued ++ ((enqueued e).toList ++ pending.toList) := by
  have snoc (f : Event (signature ι τ) → Option (ElemType τ)) :
      (trace ++ [e]).filterMap f = trace.filterMap f ++ (f e).toList := by
    cases same : f e <;> simp [same]
  rw [Pushes,snoc,snoc,List.append_assoc]

theorem pushes_quiet {c : Call ι τ} (quiet : Quiet c) (r : c.Res) (pushes : Pushes trace pending) :
    Pushes (trace ++ [⟨c,r⟩]) pending := by
  rw [pushes_snoc]
  cases c with
  | next | enqueue => exact quiet.elim
  | _ => exact (List.append_nil _).trans pushes

theorem pushes_next (settled : Pushes trace none) (request : Option (QueueCall τ)) :
    Pushes (trace ++ [⟨.next,request⟩]) (request.bind taskOf) := by
  have same : trace.filterMap askedToPush = trace.filterMap enqueued := settled.trans (List.append_nil _)
  rw [pushes_snoc,same]
  rfl

theorem pushes_enqueue (pending : Pushes trace (some task)) (r : Unit) :
    Pushes (trace ++ [⟨.enqueue task,r⟩]) none := by
  rw [pushes_snoc]
  exact (List.append_nil _).trans pending

/-- Every call that is due leaves one task pending at most. -/
theorem pushes_due {c : Call ι τ} (r : c.Res) (due : Due trace c) (pushes : ∃ pending, Pushes trace pending) :
    ∃ pending, Pushes (trace ++ [⟨c,r⟩]) pending := by
  cases c with
  | next => exact ⟨_,pushes_next due r⟩
  | enqueue task => exact ⟨none,pushes_enqueue due r⟩
  | _ =>
    obtain ⟨pending,pushes⟩ := pushes
    refine ⟨pending,pushes_quiet ?_ r pushes⟩
    trivial

theorem says_quiet {job : Job ι τ α} {post : Except Empty α → List (Event (signature ι τ)) → Prop}
    (only : Only Quiet job) (pushes : Pushes trace pending)
    (after : ∀ out trace', Pushes trace' pending → post out trace') : Says job post trace := by
  apply wp_only (K := fun trace => Pushes trace pending) only pushes
  · rintro trace c r _ pushes quiet ⟨rfl,_⟩
    exact pushes_quiet quiet r pushes
  · intro trace c _ quiet
    cases c with
    | next | enqueue => exact quiet.elim
    | _ => trivial
  · exact after

theorem only_wait (c : Condition) : Only Quiet (wait c : Job ι τ Unit) :=
  ⟨trivial,fun _ => ⟨trivial,fun _ => ⟨trivial,fun _ => trivial⟩⟩⟩

theorem only_room (queSize : Nat) : Only Quiet (.iter (fun () => do
    if ← full queSize then
      wait .notFull
      pure (.inl ())
    else pure (.inr ())) () : Job ι τ Unit) := by
  refine ⟨fun _ => ⟨trivial,fun size => ?_⟩,fun _ => trivial⟩
  change Only Quiet (if queSize == size then _ else _)
  split
  · exact only_bind (only_wait _) fun _ => trivial
  · trivial

theorem only_pop : Only Quiet (pop : Job ι τ (ElemType τ)) := by
  refine ⟨trivial,fun _ => ⟨fun _ => ⟨trivial,fun size => ?_⟩,fun _ => ⟨trivial,fun flag => ?_⟩⟩⟩
  · change Only Quiet (if 0 == size then _ else _)
    split
    · refine ⟨trivial,fun flag => ?_⟩
      change Only Quiet (if flag = true then _ else _)
      split
      · exact only_bind (only_wait _) fun _ => trivial
      · trivial
    · trivial
  · change Only Quiet (if flag = true then _ else _)
    split
    · exact ⟨trivial,fun _ => ⟨trivial,fun _ => ⟨trivial,fun _ => ⟨trivial,fun _ => trivial⟩⟩⟩⟩
    · exact ⟨trivial,fun _ => trivial⟩

theorem says_push (queSize : Nat) (pushes : Pushes trace (some task)) :
    Says (push queSize task) (fun _ trace => Pushes trace none) trace := by
  refine ⟨trivial,?_⟩
  rintro r _ ⟨rfl,_⟩
  have locked := pushes_quiet (c := .mutex .lock) trivial r pushes
  apply wp_bind (p := .iter _ ())
  refine says_quiet (only_room queSize) locked fun out trace pending => ?_
  cases out with
  | error e => cases e
  | ok _ =>
    refine ⟨pending,?_⟩
    rintro r _ ⟨rfl,_⟩
    exact says_quiet ⟨trivial,fun _ => ⟨trivial,fun _ => trivial⟩⟩ (pushes_enqueue pending r) fun _ _ => id

theorem says_serve (queSize : Nat) (request : QueueCall τ)
    (pushes : Pushes trace (taskOf request)) :
    Says (serve queSize request) (fun _ trace => Pushes trace none) trace := by
  cases request with
  | push task => exact says_push queSize pushes
  | pop =>
    refine says_quiet (only_bind only_pop fun task => ?_) pushes fun _ _ => id
    cases task with
    | none => trivial
    | some task => exact ⟨trivial,fun _ => trivial⟩
  | wakeup => exact says_quiet ⟨trivial,fun _ => ⟨trivial,fun _ => trivial⟩⟩ pushes fun _ _ => id

theorem says_client (queSize : Nat) (pushes : Pushes trace none) :
    Says (client queSize fun _ => true) (fun _ _ => True) trace := by
  refine ⟨fun _ trace => Pushes trace none,pushes,fun _ trace settled => ⟨settled,?_⟩⟩
  rintro request _ ⟨rfl,_⟩
  have pushes := pushes_next settled request
  cases request with
  | none => trivial
  | some request =>
    change Says ((serve queSize request).bind fun _ => .ret (Sum.inl () : Unit ⊕ Unit)) _ _
    apply wp_bind
    apply wp_mono _ (says_serve queSize request pushes)
    intro out trace settled
    cases out with
    | error e => cases e
    | ok _ => exact settled

theorem pushed_ran [DecidableEq ι] {first s : Threads ι τ} {log : List (ι × Event (signature ι τ))}
    (ran : Ran Sys first log s) (start : first.shared.pushed = []) :
    s.shared.pushed = log.filterMap fun x => enqueued x.2 := by
  induction ran with
  | start => exact start
  | @turn log s s' i event ran turn ih =>
    cases event with
    | none => rw [note_none,(turn_silent turn).2,ih]
    | some e =>
      obtain ⟨c,r⟩ := e
      have acts := (turn_call turn).2
      rw [note_some,List.filterMap_append,← ih]
      generalize s'.shared = g at acts
      cases acts <;> simp [enqueued]

theorem pushes_ran [DecidableEq ι] {queSize : Nat} {s : Threads ι τ} {log : List (ι × Event (signature ι τ))}
    (ran : Ran Sys (clients queSize fun _ _ => true) log s) (i : ι) :
    ∃ pending, Pushes (own log i) pending ∧ (about (s.threads i).1 = some .next → pending = none) := by
  have starts (j : ι) : Says ((clients queSize fun _ _ => true : Threads ι τ).threads j).1 (fun _ _ => True) [] :=
    says_client queSize rfl
  obtain ⟨permitted,jobs⟩ := wp_ran (fun _ _ _ _ _ _ => trivial) ran starts
  have kept : ∃ pending, Pushes (own log i) pending := by
    clear jobs ran
    induction log using List.reverseRecOn with
    | nil => exact ⟨none,rfl⟩
    | append_singleton log x ih =>
      have before := ih fun before y after same => permitted before y (after ++ [x]) (by simp [same])
      have due := permitted log x [] rfl
      rw [own_append]
      by_cases same : x.1 = i
      · subst same
        rw [own_cons_self]
        exact pushes_due x.2.2 due before
      · have unused : ∀ y ∈ [x], y.1 ≠ i := by simpa using same
        rwa [own_unused unused,List.append_nil]
  by_cases between : about (s.threads i).1 = some .next
  · refine ⟨none,?_,fun _ => rfl⟩
    have due := jobs i
    cases job : (s.threads i).1 with
    | call c k =>
      rw [job] at between due
      cases between
      exact due.1
    | ret | throw | loop => rw [job] at between; cases between
  · obtain ⟨pending,pushes⟩ := kept
    exact ⟨pending,pushes,fun next => absurd next between⟩

end pushes

section clients
variable {ι τ : Type} [DecidableEq ι] [Fintype ι] {roles : Roles ι} {s : Threads ι τ}

theorem clients_disciplined {accepts : ι → QueueCall τ → Bool}
    (suits : ∀ i, Suits roles i (accepts i))
    (reached : Relation.ReflTransGen Moves (clients roles.queSize accepts) s) :
    Disciplined roles (fun i _ w => Outside i none w) s := by
  apply moves_disciplined (fun i _ l g g' rely => Outside.moved rely) reached
  exact ⟨sound_new,fun i => keeps_client (suits i) (outside_new i)⟩

/-- The queue is first in, first out, and bounded; what a thread was given by `pop` is what it
took from the front, in order, and what it called `push` with is what it put at the end. -/
theorem fifo (queSize : Nat) {s : Threads ι τ}
    (reached : Relation.ReflTransGen Moves (clients queSize fun _ _ => true) s) :
    s.shared.taken.map Prod.snd ++ s.shared.que = s.shared.pushed ∧
      s.shared.que.length ≤ queSize ∧
      (∀ i, about (s.threads i).1 = some .front → s.shared.que ≠ []) ∧
      (∀ i, ∃ held, Holds s.shared i held ∧ (about (s.threads i).1 = some .next → held = none)) ∧
      ∀ log, Ran Sys (clients queSize fun _ _ => true) log s →
        s.shared.pushed = log.filterMap (fun x => enqueued x.2) ∧
        ∀ i, ∃ pending, Pushes (own log i) pending ∧
          (about (s.threads i).1 = some .next → pending = none) := by
  let roles : Roles ι := ⟨queSize,True,fun _ => True,fun _ => True,fun _ => True⟩
  have suits (i : ι) : Suits roles i fun _ : QueueCall τ => true :=
    ⟨fun _ _ => ⟨trivial,absurd trivial⟩,fun _ => trivial,fun _ => trivial⟩
  have holds : Disciplined roles _ s := clients_disciplined suits reached
  have may {i : ι} {c : Call ι τ} (next : about (s.threads i).1 = some c) :=
    wp_about next holds.shared (holds.threads i)
  refine ⟨holds.shared.fifo.symm,holds.shared.bounded,fun i front => ?_,fun i => ?_,
    fun log ran => ⟨pushed_ran ran rfl,pushes_ran ran⟩⟩
  · exact (may front).allowed.2.2.1
  · by_cases between : about (s.threads i).1 = some .next
    · exact ⟨none,(may between).allowed,fun _ => rfl⟩
    · obtain ⟨held,holds⟩ := holds.shared.holds i
      exact ⟨held,holds,fun next => absurd next between⟩

theorem sample_fifo : ∃ s, samplePlayed (fun _ _ => true) (sampleWaits ++ List.replicate 10 1) = some s ∧
    s.shared.taken = [(1,some 7)] ∧ s.shared.taken.map Prod.snd ++ s.shared.que = s.shared.pushed ∧
    ∃ log, Ran Sys (clients 1 fun _ _ => true) log s ∧ s.shared.pushed = log.filterMap fun x => enqueued x.2 := by
  obtain ⟨s,played⟩ : ∃ s, samplePlayed (fun _ _ => true) (sampleWaits ++ List.replicate 10 1) =
    some s := ⟨_,rfl⟩
  have taken : (samplePlayed (fun _ _ => true) (sampleWaits ++ List.replicate 10 1)).map
    (fun s => s.shared.taken) = some [(1,some 7)] := rfl
  rw [played] at taken
  obtain ⟨order,_,_,_,logged⟩ := fifo 1 (sample_moves played)
  obtain ⟨log,ran⟩ := exists_log (sample_moves played)
  exact ⟨s,played,Option.some.inj taken,order,log,ran,(logged log ran).1⟩

/-- The part of a thread that only pushes, or only pops. -/
def partOf (producer : Bool) : QueueCall τ → Bool
  | .push _ => producer
  | .pop => !producer
  | .wakeup => false

/-- The threads of one kind that were signalled and have not resumed. -/
def signalledOn (producer : ι → Bool) (s : Threads ι τ) : Condition → Finset ι
  | .notEmpty => Finset.univ.filter fun i =>
      producer i = false ∧ s.shared.mutex.waiting i = .signalled .notEmpty
  | .notFull => Finset.univ.filter fun i =>
      producer i = true ∧ s.shared.mutex.waiting i = .signalled .notFull

def rolesOf (queSize : Nat) (producer : ι → Bool) : Roles ι :=
  ⟨queSize,True,fun i => producer i = true,fun i => producer i = false,fun _ => False⟩

omit [DecidableEq ι] [Fintype ι] in
theorem partOf_suits {queSize : Nat} {producer : ι → Bool} (i : ι) :
    Suits (rolesOf queSize producer) i (partOf (τ := τ) (producer i)) where
  push _ accepted := ⟨accepted,absurd trivial⟩
  pop accepted := by simpa [partOf,rolesOf] using accepted
  wakeup accepted := by cases accepted

theorem signalled_on {queSize : Nat} {producer : ι → Bool}
    (sound : Sound (rolesOf queSize producer) s.shared) (c : Condition) :
    s.shared.mutex.signalled c = signalledOn producer s c := by
  ext i
  have waits (signalled : s.shared.mutex.waiting i = .signalled c) :=
    sound.waits i c (.inr signalled)
  cases c <;> simpa [signalledOn,Waits,rolesOf] using waits

omit [DecidableEq ι] in
theorem nobody_signalled {producer : ι → Bool} (asleep : ∀ i, producer i = false →
    s.shared.mutex.waiting i = .asleep .notEmpty) : signalledOn producer s .notEmpty = ∅ := by
  apply Finset.filter_false_of_mem
  intro i _ signalled
  have other := asleep i signalled.1
  rw [signalled.2] at other
  cases other

/-- Nobody sleeps on for want of a signal: while a thread sleeps unsignalled, everything it
waits for is matched by a thread that was signalled and has yet to resume. -/
theorem no_lost_wakeup (queSize : Nat) (one : 1 ≤ queSize) (producer : ι → Bool) {s : Threads ι τ}
    (reached : Relation.ReflTransGen Moves (clients queSize fun i => partOf (producer i)) s) :
    (s.shared.mutex.owner = none →
      ((∃ i, producer i = false ∧ s.shared.mutex.waiting i = .asleep .notEmpty) →
        s.shared.que.length ≤ (signalledOn producer s .notEmpty).card) ∧
      ((∃ i, producer i = true ∧ s.shared.mutex.waiting i = .asleep .notFull) →
        queSize - s.shared.que.length ≤ (signalledOn producer s .notFull).card) ∧
      ((∃ i, producer i = false) → s.shared.que ≠ [] →
        ¬ ∀ i, producer i = false → s.shared.mutex.waiting i = .asleep .notEmpty)) ∧
    ((∃ i, producer i = true) → (∃ i, producer i = false) →
      ¬ ∀ i, s.shared.mutex.waiting i = .asleep (if producer i then .notFull else .notEmpty)) := by
  have holds : Disciplined (rolesOf queSize producer) _ s :=
    clients_disciplined partOf_suits reached
  have sound := holds.shared
  have up : s.shared.flag = true := sound.up fun _ => id
  have owed (free : s.shared.mutex.owner = none) (c : Condition)
      (asleep : ∃ i, s.shared.mutex.waiting i = .asleep c) :
      supply (rolesOf queSize producer) s.shared.que c ≤ (signalledOn producer s c).card := by
    have bound := sound.balanced free c up asleep
    rwa [signalled_on sound] at bound
  have alike {c : Condition} (asleep : ∀ i, s.shared.mutex.waiting i =
      .asleep (if producer i then .notFull else .notEmpty)) : signalledOn producer s c = ∅ := by
    rw [← signalled_on sound]
    apply Finset.filter_false_of_mem
    intro i _ signalled
    rw [asleep i] at signalled
    cases signalled
  refine ⟨fun free => ⟨fun consumer => ?_,fun producer => ?_,fun consumer occupied asleep => ?_⟩,
    fun producers consumers asleep => ?_⟩
  · obtain ⟨i,_,asleep⟩ := consumer
    exact owed free .notEmpty ⟨i,asleep⟩
  · obtain ⟨i,_,asleep⟩ := producer
    exact owed free .notFull ⟨i,asleep⟩
  · obtain ⟨i,consumes⟩ := consumer
    have bound := owed free .notEmpty ⟨i,asleep i consumes⟩
    rw [nobody_signalled asleep,Finset.card_empty] at bound
    exact occupied (List.length_eq_zero_iff.mp (Nat.le_zero.mp bound))
  · have free : s.shared.mutex.owner = none := by
      by_contra taken
      obtain ⟨i,own⟩ := Option.ne_none_iff_exists'.mp taken
      have running := sound.awake i own
      rw [asleep i] at running
      cases running
    obtain ⟨i,produces⟩ := producers
    obtain ⟨j,consumes⟩ := consumers
    have full := owed free .notFull ⟨i,by simpa [produces] using asleep i⟩
    have empty := owed free .notEmpty ⟨j,by simpa [consumes] using asleep j⟩
    rw [alike asleep,Finset.card_empty] at full empty
    simp only [supply,rolesOf] at full empty
    omega

theorem sample_no_lost_wakeup : ∃ s, samplePlayed (fun i => partOf (i == 0)) sampleWaits = some s ∧
    s.shared.mutex.waiting 2 = .asleep .notEmpty ∧ s.shared.que = [some 7] ∧
    s.shared.que.length ≤ (signalledOn (fun i => i == 0) s .notEmpty).card := by
  obtain ⟨s,played⟩ : ∃ s, samplePlayed (fun i => partOf (i == 0)) sampleWaits = some s := ⟨_,rfl⟩
  have seen : (samplePlayed (fun i => partOf (i == 0)) sampleWaits).map (fun s =>
    (s.shared.mutex.owner,s.shared.mutex.waiting 2,s.shared.que)) =
    some (none,.asleep .notEmpty,[some 7]) := rfl
  rw [played] at seen
  obtain ⟨free,seen⟩ := Prod.mk.inj (Option.some.inj seen)
  obtain ⟨asleep,que⟩ := Prod.mk.inj seen
  have counted := no_lost_wakeup 1 le_rfl (fun i => i == 0) (sample_moves played)
  exact ⟨s,played,asleep,que,(counted.1 free).1 ⟨2,rfl,asleep⟩⟩

end clients

end FilediskServer.TaskQueue
