import FilediskServer.PoolRuns

/-! How the pool is stopped: whether its workers wake up, and what becomes of the tasks. -/
namespace FilediskServer.ThreadPool
open Interaction PoolCalls TaskQueue

section pool
variable {n queSize : Nat} {κ τ : Type} [DecidableEq κ] [Fintype κ]

def poolRoles (n : Nat) (κ : Type) (queSize : Nat) : Roles (Thread n κ) where
  queSize := queSize
  emptyTasks := False
  produces t := ∃ k, t = .feeder k
  consumes t := ∃ i, t = .worker i
  wakes t := t = .stopper

def Ends : Thread n κ → Except Empty Unit →
    Last (Thread n κ) τ × Shared (Thread n κ) τ → Prop
  | .worker _, _, _ => True
  | .feeder k, _, w => Outside (.feeder k) none w
  | .stopper, _, w => Outside .stopper none w ∧ Ended (workers n κ) w.2

abbrev Pooled (queSize : Nat) (s : Threads (Thread n κ) τ) : Prop :=
  Disciplined (poolRoles n κ queSize) Ends s

theorem ends_stable (t : Thread n κ) (out : Except Empty Unit) :
    Stable (Rely (τ := τ) (poolRoles n κ queSize) t) (Ends t out) := by
  intro l g g' rely ends
  cases t with
  | worker => trivial
  | feeder k => exact Outside.moved rely ends
  | stopper => exact ⟨ends.1.moved rely,ends.2.moved rely⟩

theorem start_pooled {feed : κ → Job (Thread n κ) τ Unit} {stop : Job (Thread n κ) τ Unit}
    (feeds : ∀ k l g, Outside (.feeder k) none (l,g) →
      Keeps (poolRoles n κ queSize) (.feeder k) (feed k) (Ends (.feeder k)) (l,g))
    (stops : ∀ l g, Outside .stopper none (l,g) →
      Keeps (poolRoles n κ queSize) .stopper stop (Ends .stopper) (l,g)) :
    Pooled queSize (start feed stop) := by
  refine ⟨sound_new,fun t => ?_⟩
  cases t with
  | worker i => exact keeps_threadFunc ⟨i,rfl⟩ (outside_new _)
  | feeder k => exact feeds k _ _ (outside_new _)
  | stopper => exact stops _ _ (outside_new _)

/-- The pool with threads that add tasks and one that calls `ThreadPool::stop`. -/
def stopping (n queSize : Nat) (κ τ : Type) : Threads (Thread n κ) τ :=
  start (fun _ => adder queSize) (stop (workers n κ))

theorem stopping_pooled : Pooled queSize (stopping n queSize κ τ) :=
  start_pooled (fun k _ _ outside => keeps_adder ⟨k,rfl⟩ outside)
    fun _ _ outside => keeps_stop rfl outside

/-- The thread has tested `empty() && _flag` and goes to wait. -/
def Testing (s : Threads (Thread n κ) τ) (t : Thread n κ) : Prop :=
  s.shared.mutex.owner = some t ∧ s.shared.que = [] ∧ (s.threads t).2 = some ⟨.readFlag,true⟩

/-- The broadcast of `wakeup` falls between nobody's test and wait. -/
def Clear (s s' : Threads (Thread n κ) τ) : Prop :=
  s.shared.woken = false → s'.shared.woken = true → ∀ t, ¬ Testing s t

def Quiet (s : Threads (Thread n κ) τ) : Prop :=
  s.shared.woken = true →
    ∀ t, s.shared.mutex.waiting t ≠ .asleep .notEmpty ∧ ¬ Testing s t

variable {s s' : Threads (Thread n κ) τ} {roles : Roles (Thread n κ)} {i t : Thread n κ}

theorem testing_before (moved : Moved roles i s s') (down : s.shared.flag = false)
    (testing : Testing s' t) : Testing s t := by
  obtain ⟨own,empty,last⟩ := testing
  cases moved with
  | silent running others same shared =>
    rw [shared] at own empty
    refine ⟨own,empty,?_⟩
    by_cases mover : t = i
    · subst mover
      exact same.symm.trans last
    · exact (congrArg Prod.snd (others t mover)).symm.trans last
  | call c r running others same may acts rely =>
    by_cases mover : t = i
    · subst mover
      cases same.symm.trans last
      rw [← (acts_readFlag acts).1] at down
      cases down
    · have before := (rely t mover).mutex.owner.mpr own
      have que := ((rely t mover).que before).1
      exact ⟨before,que.symm.trans empty,(congrArg Prod.snd (others t mover)).symm.trans last⟩

/-- A thread falls asleep only when it has tested, and none sleeps after the broadcast. -/
theorem asleep_moved (moved : Moved roles i s s')
    (asleep : s'.shared.mutex.waiting t = .asleep .notEmpty) :
    (s.shared.mutex.waiting t = .asleep .notEmpty ∧ s'.shared.woken = s.shared.woken) ∨
      Testing s t := by
  cases moved with
  | silent running others same shared =>
    rw [shared] at asleep
    exact .inl ⟨asleep,congrArg Shared.woken shared⟩
  | call c r running others same may acts rely =>
    have allowed := may.allowed
    generalize s'.shared = g at acts asleep
    cases acts with
    | @mutex o m acts =>
      rcases Monitor.asleep_before acts asleep with ⟨before,other⟩ | ⟨rfl,rfl⟩
      · exact .inl ⟨before,by simp [other]⟩
      · refine .inr ⟨allowed.1,?_,allowed.2.2.2.2 rfl⟩
        exact List.length_eq_zero_iff.mp allowed.2.2.2.1
    | _ => exact .inl ⟨asleep,rfl⟩

theorem woken_moved (moved : Moved roles i s s') (before : s.shared.woken = false)
    (after : s'.shared.woken = true) : s.shared.flag = false := by
  cases moved with
  | silent running others same shared =>
    rw [shared,before] at after
    cases after
  | call c r running others same may acts rely =>
    have allowed := may.allowed
    generalize s'.shared = g at acts after
    cases acts with
    | @mutex o m acts =>
      rw [before,Bool.false_or,decide_eq_true_eq] at after
      subst after
      exact allowed.2.2
    | _ =>
      rw [before] at after
      cases after

theorem quiet_step (pooled : Pooled queSize s) (moves : Moves s s') (clear : Clear s s')
    (quiet : Quiet s) : Quiet s' := by
  obtain ⟨i,event,turn⟩ := moves
  have moved := turn_moved turn pooled
  intro woken t
  cases before : s.shared.woken with
  | true =>
    obtain ⟨awake,untested⟩ := quiet before t
    refine ⟨fun asleep => ?_,fun testing => ?_⟩
    · rcases asleep_moved moved asleep with ⟨slept,_⟩ | testing
      · exact awake slept
      · exact untested testing
    · exact untested (testing_before moved (pooled.shared.woken before) testing)
  | false =>
    have untested := clear before woken t
    refine ⟨fun asleep => ?_,fun testing => ?_⟩
    · rcases asleep_moved moved asleep with ⟨_,same⟩ | testing
      · rw [woken,before] at same
        cases same
      · exact untested testing
    · exact untested (testing_before moved (woken_moved moved before woken) testing)

/-- In every run whose broadcast is clear: once `wakeup` is over no worker sleeps on, and none
that `stop` joins does. -/
theorem all_awake {run : List (Threads (Thread n κ) τ)}
    (steps : (stopping n queSize κ τ :: run).IsChain Moves)
    (clear : (stopping n queSize κ τ :: run).IsChain Clear) :
    ∀ s ∈ stopping n queSize κ τ :: run,
      (s.shared.woken = true → ∀ i, s.shared.mutex.waiting (.worker i) ≠ .asleep .notEmpty) ∧
      ∀ i, about (s.threads .stopper).1 = some (.join (.worker i)) →
        s.shared.mutex.waiting (.worker i) ≠ .asleep .notEmpty := by
  have kept := always_of_guarded (P := fun s => Pooled queSize s ∧ Quiet s) steps clear
    ⟨stopping_pooled,fun woken => by cases woken⟩ fun s s' held moves clear =>
      ⟨move_disciplined ends_stable moves held.1,quiet_step held.1 moves clear held.2⟩
  intro s inside
  obtain ⟨pooled,quiet⟩ := kept s inside
  refine ⟨fun woken i => (quiet woken _).1,fun i joins => ?_⟩
  have may := wp_about joins pooled.shared (pooled.threads .stopper)
  exact (quiet may.allowed _).1

end pool

section sample

def sampleScript : Script (Thread 1 Empty) Nat where
  all := [.worker 0,.stopper]
  asked _ _ := none
  messages _ := []

theorem sample_all (t : Thread 1 Empty) : t ∈ sampleScript.all := by
  cases t with
  | worker i => simp [sampleScript,Fin.eq_zero i]
  | feeder k => cases k
  | stopper => simp [sampleScript]

/-- The worker waits before `stop` begins, and goes on when it is woken. -/
def sampleAwake : Option (List (Threads (Thread 1 Empty) Nat)) :=
  (stopping 1 1 Empty Nat).trail sampleScript.respond
    (List.replicate 7 (.worker 0) ++ List.replicate 5 .stopper)

/-- The worker has tested when `stop` wakes everybody, and waits then. -/
def sampleAsleep : Option (Threads (Thread 1 Empty) Nat) :=
  (stopping 1 1 Empty Nat).play sampleScript.respond
    (List.replicate 6 (.worker 0) ++ List.replicate 5 .stopper ++ [.worker 0])

/-- A check of `Clear` for the case that nobody has the mutex. -/
def clearly (s s' : Threads (Thread 1 Empty) Nat) : Bool :=
  s.shared.woken || !s'.shared.woken || s.shared.mutex.owner.isNone

theorem clear_of_clearly {s s' : Threads (Thread 1 Empty) Nat} (check : clearly s s' = true) :
    Clear s s' := by
  intro before woken t testing
  rw [clearly,before,woken,testing.1] at check
  cases check

end sample

theorem sample_all_awake : ∃ run, sampleAwake = some run ∧
    ∀ s ∈ stopping 1 1 Empty Nat :: run, s.shared.woken = true →
      s.shared.mutex.waiting (.worker 0) ≠ .asleep .notEmpty := by
  obtain ⟨run,played⟩ : ∃ run, sampleAwake = some run := ⟨_,rfl⟩
  have checked : sampleAwake.map (fun run => decide ((stopping 1 1 Empty Nat :: run).IsChain
    fun s s' => clearly s s' = true)) = some true := rfl
  rw [played] at checked
  have clear := (of_decide_eq_true (Option.some.inj checked)).imp fun _ _ => clear_of_clearly
  have awake := all_awake (Script.trail_moves sample_all played) clear
  exact ⟨run,played,fun s inside woken => (awake s inside).1 woken 0⟩

/-- The worker sleeps after the only broadcast, and `stop` joins it. -/
theorem sleeps_on : ¬ ∀ (n queSize : Nat) (s : Threads (Thread n Empty) Nat),
    Relation.ReflTransGen Moves (stopping n queSize Empty Nat) s → s.shared.woken = true →
    ∀ i, s.shared.mutex.waiting (.worker i) ≠ .asleep .notEmpty := by
  intro awake
  obtain ⟨s,played⟩ : ∃ s, sampleAsleep = some s := ⟨_,rfl⟩
  have seen : sampleAsleep.map (fun s => (s.shared.woken,s.shared.mutex.waiting (.worker 0))) =
    some (true,.asleep .notEmpty) := rfl
  rw [played] at seen
  obtain ⟨woken,asleep⟩ := Prod.mk.inj (Option.some.inj seen)
  exact awake 1 1 s (Script.play_moves sample_all played) woken 0 asleep

/-- Two records agree in what each key stands by agree, but for the order. -/
theorem perm_of_each {α β : Type} [DecidableEq α] {xs ys : List (α × β)}
    (each : ∀ a, xs.filterMap (fun x => if x.1 = a then some x.2 else none) =
      ys.filterMap fun x => if x.1 = a then some x.2 else none) : xs.Perm ys := by
  classical
  have counted (a : α) (b : β) (xs : List (α × β)) : xs.count (a,b) =
      (xs.filterMap fun x => if x.1 = a then some x.2 else none).count b := by
    induction xs with
    | nil => rfl
    | cons x xs ih =>
      obtain ⟨c,d⟩ := x
      by_cases same : c = a <;> simp [List.count_cons,same,ih]
  apply List.perm_iff_count.mpr
  intro x
  rw [counted x.1 x.2 xs,counted x.1 x.2 ys,each]

section drained
variable {n queSize : Nat} {κ τ : Type} [DecidableEq κ] [Fintype κ] {roles : Roles (Thread n κ)}
  {s s' : Threads (Thread n κ) τ} {i : Thread n κ}

/-- Threads that do not push leave an empty queue empty. -/
theorem empty_moved (moved : Moved roles i s s') (idle : ¬ roles.produces i)
    (empty : s.shared.que = []) : s'.shared.que = [] := by
  cases moved with
  | silent running others same shared => rw [shared,empty]
  | call c r running others same may acts rely =>
    have allowed := may.allowed
    generalize s'.shared = g at acts ⊢
    cases acts with
    | enqueue => exact absurd allowed.2.1 idle
    | dequeue first =>
      rw [empty] at first
      cases first
    | _ => exact empty

/-- `stop` reads the size of the queue while no thread has the mutex. -/
def Settled (s s' : Threads (Thread n κ) τ) : Prop :=
  ∀ size, Turn Sys .stopper s (some ⟨.size,size⟩) s' → s.shared.mutex.owner = none

/-- Once no more tasks are added: when `stop` has seen the queue empty it stays so. -/
structure Drained (s : Threads (Thread n κ) τ) : Prop where
  returned : ∀ k, (s.threads (.feeder k)).1 = .ret ()
  seen : (s.threads .stopper).2 = some ⟨.size,(0 : Nat)⟩ → s.shared.que = []
  isExit : s.shared.isExit = true → s.shared.que = []

theorem drained_step (pooled : Pooled queSize s) (moves : Moves s s') (settled : Settled s s')
    (drained : Drained s) : Drained s' := by
  obtain ⟨i,event,turn⟩ := moves
  have moved := turn_moved turn pooled
  have mover (k : κ) : .feeder k ≠ i := by
    intro same
    subst same
    cases moved with
    | silent running | call _ _ running => exact running () (drained.returned k)
  have still := empty_moved moved fun ⟨k,same⟩ => mover k same.symm
  refine ⟨fun k => ?_,fun last => still ?_,fun isExit => still ?_⟩
  · rw [turn_other turn (mover k)]
    exact drained.returned k
  · by_cases same : Thread.stopper = i
    · subst same
      cases event with
      | none => exact drained.seen ((turn_silent turn).1.symm.trans last)
      | some e =>
        obtain ⟨own,acts⟩ := turn_call turn
        cases own.symm.trans last
        have free := settled 0 turn
        exact List.length_eq_zero_iff.mp (acts_size acts fun j own => by rw [free] at own; cases own).1.symm
    · rw [turn_other turn same] at last
      exact drained.seen last
  · cases moved with
    | silent running others same shared => exact drained.isExit (shared ▸ isExit)
    | call c r running others same may acts rely =>
      have allowed := may.allowed
      generalize s'.shared = g at acts isExit
      cases acts with
      | setIsExit =>
        obtain ⟨rfl,last⟩ := allowed
        exact drained.seen last
      | _ => exact drained.isExit isExit

/-- Every worker has ended: what was taken was executed, once. -/
theorem executed_perm (sound : Sound (poolRoles n κ queSize) s.shared)
    (ended : Ended (workers n κ) s.shared) :
    (s.shared.executed.map fun x => some x.2).Perm (s.shared.taken.map Prod.snd) := by
  have empty (t : Thread n κ) : takenBy s.shared t = executedBy s.shared t := by
    have none : Holds s.shared t none := by
      cases t with
      | worker i => exact (sound.finished _ (ended.exited _ (by simp [workers]))).1
      | feeder k => exact sound.idle _ (by simp [poolRoles])
      | stopper => exact sound.idle _ (by simp [poolRoles])
    simpa [Holds] using none
  have filled : ∀ x ∈ s.shared.taken, x.2 ≠ none := by
    intro x inside
    apply sound.filled id
    rw [sound.fifo]
    exact List.mem_append_left _ (List.mem_map_of_mem inside)
  have each : (s.shared.executed.map fun x => (x.1,some x.2)).Perm s.shared.taken := by
    apply perm_of_each
    intro t
    have taken := takenBy_filled filled t
    rw [taken,empty t,List.filterMap_map,executedBy,List.map_filterMap]
    congr 1
    funext x
    by_cases same : x.1 = t <;> simp [same]
  have executed := each.map Prod.snd
  rwa [List.map_map] at executed

/-- A step of a thread other than the one that stops the pool. -/
def Works (s s' : Threads (Thread n κ) τ) : Prop :=
  ∃ t event, t ≠ .stopper ∧ Turn Sys t s event s'

theorem works_unstopped (pooled : Pooled queSize s) (works : Works s s')
    (unstopped : (s.threads .stopper).2 = none ∧ s.shared.isExit = false) :
    (s'.threads .stopper).2 = none ∧ s'.shared.isExit = false := by
  obtain ⟨t,event,other,turn⟩ := works
  rw [turn_other turn other.symm]
  refine ⟨unstopped.1,?_⟩
  cases turn_moved turn pooled with
  | silent running others same shared => exact shared ▸ unstopped.2
  | call c r running others same may acts rely =>
    have allowed := may.allowed
    generalize s'.shared = g at acts ⊢
    cases acts with
    | setIsExit => exact absurd allowed.1 other
    | _ => exact unstopped.2

/-- All `addTask` calls have returned before `stop` is called. In every run in which `stop` reads the size
while nobody has the mutex: when it returns, every task that was added has been executed to its end, once. -/
theorem stop_drains {mid : Threads (Thread n κ) τ} {run : List (Threads (Thread n κ) τ)}
    (before : Relation.ReflTransGen Works (stopping n queSize κ τ) mid)
    (returned : ∀ k, (mid.threads (.feeder k)).1 = .ret ())
    (steps : (mid :: run).IsChain Moves) (settled : (mid :: run).IsChain Settled) :
    ∀ s ∈ mid :: run, (s.threads .stopper).1 = .ret () →
      (s.shared.executed.map fun x => some x.2).Perm s.shared.pushed := by
  have unstopped : Pooled queSize mid ∧ (mid.threads .stopper).2 = none ∧
      mid.shared.isExit = false := by
    clear returned steps settled
    induction before with
    | refl => exact ⟨stopping_pooled,rfl,rfl⟩
    | tail _ works ih =>
      obtain ⟨t,event,_,turn⟩ := id works
      exact ⟨move_disciplined ends_stable ⟨t,event,turn⟩ ih.1,works_unstopped ih.1 works ih.2⟩
  obtain ⟨pooled,last,isExit⟩ := unstopped
  have kept := always_of_guarded (P := fun s => Pooled queSize s ∧ Drained s) steps settled
    ⟨pooled,returned,by simp [last],by simp [isExit]⟩ fun s s' held moves settled =>
      ⟨move_disciplined ends_stable moves held.1,drained_step held.1 moves settled held.2⟩
  intro s inside stopped
  obtain ⟨pooled,drained⟩ := kept s inside
  have ends := pooled.threads .stopper
  rw [stopped] at ends
  have executed := executed_perm pooled.shared ends.2
  rw [pooled.shared.fifo,drained.isExit ends.2.isExit,List.append_nil]
  exact executed

end drained

section sample

def drainScript : Script (Thread 1 Unit) Nat where
  all := [.worker 0,.feeder (),.stopper]
  asked _ g := if g.pushed.length < 1 then some (.push (some 7)) else none
  messages _ := [some 7]

theorem drain_all (t : Thread 1 Unit) : t ∈ drainScript.all := by
  cases t with
  | worker i => simp [drainScript,Fin.eq_zero i]
  | feeder k => simp [drainScript]
  | stopper => simp [drainScript]

def returned {n : Nat} {κ τ : Type} (s : Threads (Thread n κ) τ) (t : Thread n κ) : Bool :=
  match (s.threads t).1 with
  | .ret _ => true
  | _ => false

theorem returned_eq {n : Nat} {κ τ : Type} {s : Threads (Thread n κ) τ} {t : Thread n κ}
    (done : returned s t = true) : (s.threads t).1 = .ret () := by
  unfold returned at done
  split at done
  next same => exact same
  next => cases done

theorem works_play {script : Script (Thread 1 Unit) Nat} (every : ∀ t, t ∈ script.all)
    {s s' : Threads (Thread 1 Unit) Nat} {schedule : List (Thread 1 Unit)}
    (unstopped : ∀ t ∈ schedule, t ≠ .stopper) (played : s.play script.respond schedule = some s') :
    Relation.ReflTransGen Works s s' :=
  Script.play_turns every unstopped played

/-- One task is added while the only worker waits. -/
def drainAdded : Option (Threads (Thread 1 Unit) Nat) :=
  (stopping 1 1 Unit Nat).play drainScript.respond
    (List.replicate 7 (.worker 0) ++ List.replicate 10 (.feeder ()))

/-- The worker executes it and waits again, and the pool is stopped. -/
def drainStopped (s : Threads (Thread 1 Unit) Nat) : Option (List (Threads (Thread 1 Unit) Nat)) :=
  s.trail drainScript.respond (List.replicate 17 (.worker 0) ++ List.replicate 5 .stopper ++
    List.replicate 10 (.worker 0) ++ [.stopper])

/-- A check of `Settled` for the last call of the thread that stops. -/
def settledly (s s' : Threads (Thread 1 Unit) Nat) : Bool :=
  s.shared.mutex.owner.isNone || match (s'.threads .stopper).2 with
    | some ⟨.size,_⟩ => false
    | _ => true

theorem settled_of_settledly {s s' : Threads (Thread 1 Unit) Nat} (check : settledly s s' = true) :
    Settled s s' := by
  intro size turn
  rw [settledly,(turn_call turn).1,Bool.or_false] at check
  exact Option.isNone_iff_eq_none.mp check

end sample

theorem sample_stop_drains : ∃ mid run, drainAdded = some mid ∧ drainStopped mid = some run ∧
    ∃ s ∈ mid :: run, (s.threads .stopper).1 = .ret () ∧ s.shared.pushed = [some 7] ∧
      (s.shared.executed.map fun x => some x.2).Perm s.shared.pushed := by
  obtain ⟨mid,added⟩ : ∃ mid, drainAdded = some mid := ⟨_,rfl⟩
  have first : drainAdded.map (fun s => returned s (.feeder ())) = some true := rfl
  have second : (drainAdded.bind fun mid => (drainStopped mid).map fun run =>
      (decide ((mid :: run).IsChain fun s s' => settledly s s' = true),
        run.any fun s => returned s .stopper && s.shared.pushed == [some 7])) = some (true,true) := rfl
  rw [added] at first second
  obtain ⟨run,played,seen⟩ := Option.map_eq_some_iff.mp second
  obtain ⟨checked,ends⟩ := Prod.mk.inj seen
  obtain ⟨s,inside,done⟩ := List.any_eq_true.mp ends
  obtain ⟨stopped,pushed⟩ := Bool.and_eq_true_iff.mp done
  have before := works_play drain_all (by decide) added
  have settled := (of_decide_eq_true checked).imp fun _ _ => settled_of_settledly
  refine ⟨mid,run,added,played,s,List.mem_cons_of_mem _ inside,returned_eq stopped,eq_of_beq pushed,?_⟩
  exact stop_drains before (fun _ => returned_eq (Option.some.inj first)) (Script.trail_moves drain_all played)
    settled s (List.mem_cons_of_mem _ inside) (returned_eq stopped)

section torn

/-- 16 of 31 tasks are left when `stop` reads the size: they lie in the last place of one block of the deque
and in 15 places of the next. The worker takes the first, and the deque begins in the next block. A read of
the new block, but of the place in the old one, gives -16 + 15 + 1. -/
def tornScript : Script (Thread 1 Unit) Nat where
  all := [.worker 0,.feeder (),.stopper]
  asked _ g := if g.pushed.length < 31 then some (.push (some 7)) else none
  messages _ := []
  torn _ := 0

theorem torn_all (t : Thread 1 Unit) : t ∈ tornScript.all := drain_all t

def tornAdded : Option (Threads (Thread 1 Unit) Nat) :=
  (stopping 1 100 Unit Nat).play tornScript.respond
    (List.replicate 250 (.feeder ()) ++ List.replicate 172 (.worker 0))

def tornStopped (s : Threads (Thread 1 Unit) Nat) : Option (Threads (Thread 1 Unit) Nat) :=
  s.play tornScript.respond (List.replicate 5 .stopper ++ List.replicate 7 (.worker 0) ++ [.stopper])

end torn

/-- `stop` returns with 15 tasks in the queue. -/
theorem tasks_left : ¬ ∀ (n queSize : Nat) (mid last : Threads (Thread n Unit) Nat),
    Relation.ReflTransGen Works (stopping n queSize Unit Nat) mid →
    (∀ k, (mid.threads (.feeder k)).1 = .ret ()) → Relation.ReflTransGen Moves mid last →
    (last.threads .stopper).1 = .ret () →
    (last.shared.executed.map fun x => some x.2).Perm last.shared.pushed := by
  intro drains
  have first : tornAdded.any (fun mid => returned mid (.feeder ())) = true := by decide +kernel
  have second : (tornAdded.bind tornStopped).any (fun last => returned last .stopper &&
      (last.shared.executed.length,last.shared.pushed.length) == (16,31)) = true := by decide +kernel
  obtain ⟨last,ran,done⟩ := (Option.any_eq_true _ _).mp second
  obtain ⟨mid,added,stops⟩ := Option.bind_eq_some_iff.mp ran
  obtain ⟨stopped,counted⟩ := Bool.and_eq_true_iff.mp done
  obtain ⟨executed,pushed⟩ := Prod.mk.inj (eq_of_beq counted)
  have before := works_play torn_all (by decide) added
  rw [added] at first
  have all := (drains 1 100 mid last before (fun _ => returned_eq first) (Script.play_moves torn_all stops)
    (returned_eq stopped)).length_eq
  rw [List.length_map,executed,pushed] at all
  cases all

end FilediskServer.ThreadPool
