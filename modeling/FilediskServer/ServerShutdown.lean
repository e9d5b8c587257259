import FilediskServer.Shutdown

/-! How the whole server is stopped: the pool first, while the event loop still gives it
tasks. -/
namespace FilediskServer.ThreadPool
open Interaction PoolCalls TaskQueue

section server
variable {n queSize : Nat} {τ : Type} {s s' : Threads (Thread n Unit) τ} {i t : Thread n Unit}
  {roles : Roles (Thread n Unit)}

/-- `FileServer` with its event loop and a thread that calls `FileServer::stop`. -/
def serving (n queSize : Nat) (τ : Type) : Threads (Thread n Unit) τ :=
  start (fun _ => loop queSize) (stopServer (workers n Unit))

theorem serving_pooled : Pooled queSize (serving n queSize τ) :=
  start_pooled (fun k _ _ outside => keeps_loop ⟨k,rfl⟩ outside)
    fun _ _ outside => keeps_stopServer rfl outside

/-- A worker inside `pop` that has read `_flag` as true for the second time, or has called
`front`. -/
def Taking (s : Threads (Thread n Unit) τ) (t : Thread n Unit) : Prop :=
  s.shared.mutex.owner = some t ∧ ((s.threads t).2 = some ⟨.readFlag,true⟩ ∨
    ∃ task, (s.threads t).2 = some ⟨.front,task⟩)

/-- Nothing is left in the queue but a task that a worker is about to take. -/
def Safe (s : Threads (Thread n Unit) τ) : Prop :=
  s.shared.que = [] ∨ ∃ t task, s.shared.que = [task] ∧ Taking s t

/-- The flag falls when the queue is safe, and nothing is pushed after that. -/
def Kept (s s' : Threads (Thread n Unit) τ) : Prop :=
  (s.shared.flag = true → s'.shared.flag = false → Safe s) ∧
    (s.shared.flag = false → s'.shared.pushed = s.shared.pushed)

theorem flag_moved (moved : Moved roles i s s') (down : s.shared.flag = false) :
    s'.shared.flag = false := by
  cases moved with
  | silent running others same shared => rw [shared,down]
  | call c r running others same may acts rely => exact acts_flag acts down

/-- A step of another thread does not disturb the one that is taking a task. -/
theorem taking_other (other : t ≠ i) (threads : ∀ j, j ≠ i → s'.threads j = s.threads j)
    (rely : ∀ j, j ≠ i → Rely roles j s.shared s'.shared) :
    (Taking s' t ↔ Taking s t) ∧ (Taking s t → s'.shared.que = s.shared.que) := by
  unfold Taking
  rw [threads t other,(rely t other).mutex.owner]
  exact ⟨Iff.rfl,fun taking => ((rely t other).que ((rely t other).mutex.owner.mpr taking.1)).1⟩

/-- The thread that is taking the only task goes on to take it. -/
theorem taking_own {c : Call (Thread n Unit) τ} {r : c.Res} {task : ElemType τ}
    (taking : Taking s i) (que : s.shared.que = [task])
    (last : (s'.threads i).2 = some ⟨c,r⟩) (may : May roles i ((s.threads i).2,s.shared) c)
    (acts : Acts i s.shared c r s'.shared) : Safe s' := by
  obtain ⟨own,tested | ⟨front,called⟩⟩ := taking
  · rcases may.tested tested with rfl | rfl
    · have same := acts_front acts
      exact .inr ⟨i,task,by rw [same,que],by rw [same]; exact own,.inr ⟨r,last⟩⟩
    · have nothing := may.allowed.2.2.2.1
      simp [supply,que] at nothing
  · obtain rfl := may.order.mpr ⟨front,called⟩
    obtain ⟨_,first⟩ := acts_dequeue acts
    exact .inl (List.cons.inj (first.symm.trans que)).2

theorem safe_silent (others : ∀ j, j ≠ i → s'.threads j = s.threads j)
    (last : (s'.threads i).2 = (s.threads i).2) (shared : s'.shared = s.shared) :
    Safe s' ↔ Safe s := by
  have same (t : Thread n Unit) : (s'.threads t).2 = (s.threads t).2 := by
    by_cases mover : t = i
    · exact mover ▸ last
    · rw [others t mover]
  unfold Safe Taking
  simp only [shared,same]

theorem safe_after (moved : Moved roles i s s') (pushed : s'.shared.pushed = s.shared.pushed)
    (safe : Safe s) : Safe s' := by
  cases moved with
  | silent running others last shared =>
    exact (safe_silent others last shared).mpr safe
  | call c r running others last may acts rely =>
    rcases safe with empty | ⟨t,task,que,taking⟩
    · left
      generalize s'.shared = g at acts pushed ⊢
      cases acts with
      | enqueue => simp at pushed
      | dequeue first =>
        rw [empty] at first
        cases first
      | _ => exact empty
    · by_cases mover : t = i
      · subst mover
        exact taking_own taking que last may acts
      · obtain ⟨same,still⟩ := taking_other mover others rely
        exact .inr ⟨t,task,(still taking).trans que,same.mpr taking⟩

theorem safe_before (moved : Moved roles i s s') (down : s'.shared.flag = false) (safe : Safe s') :
    Safe s := by
  cases moved with
  | silent running others last shared => exact (safe_silent others last shared).mp safe
  | call c r running others last may acts rely =>
    rcases safe with empty | ⟨t,task,que,taking⟩
    · have allowed := may.allowed
      have order := may.order
      generalize s'.shared = g at acts empty
      cases acts with
      | enqueue => simp at empty
      | @dequeue task rest first =>
        obtain rfl : rest = [] := empty
        exact .inr ⟨i,task,first,allowed.1,.inr (order.mp rfl)⟩
      | _ => exact .inl empty
    · by_cases mover : t = i
      · subst mover
        obtain ⟨own,tested | ⟨front,called⟩⟩ := taking
        · cases last.symm.trans tested
          obtain ⟨flag,same⟩ := acts_readFlag acts
          rw [same,← flag] at down
          cases down
        · cases last.symm.trans called
          have same := acts_front acts
          exact .inr ⟨t,task,same ▸ que,may.allowed.1,.inl may.allowed.2.2.2⟩
      · obtain ⟨same,still⟩ := taking_other mover others rely
        have taking := same.mp taking
        exact .inr ⟨t,task,(still taking).symm.trans que,taking⟩

theorem safe_unpushed (moved : Moved roles i s s') (safe : Safe s') :
    s'.shared.pushed = s.shared.pushed := by
  cases moved with
  | silent running others last shared => rw [shared]
  | call c r running others last may acts rely =>
    by_cases pushes : ∃ task, c = .enqueue task
    · obtain ⟨task,rfl⟩ := pushes
      exfalso
      have own := may.allowed.1
      rcases safe with empty | ⟨t,_,_,taking⟩
      · generalize s'.shared = g at acts empty
        cases acts
        simp at empty
      · by_cases mover : t = i
        · subst mover
          rcases taking.2 with tested | ⟨_,called⟩
          · cases last.symm.trans tested
          · cases last.symm.trans called
        · have theirs := ((taking_other mover others rely).1.mp taking).1
          exact mover (Option.some.inj (theirs.symm.trans own))
    · generalize s'.shared = g at acts ⊢
      cases acts with
      | @enqueue task => exact absurd ⟨task,rfl⟩ pushes
      | _ => rfl

/-- The step that clears the flag pushes nothing. -/
theorem lowering_pushed (moved : Moved roles i s s') (up : s.shared.flag = true)
    (down : s'.shared.flag = false) : s'.shared.pushed = s.shared.pushed := by
  cases moved with
  | silent running others last shared => rw [shared]
  | call c r running others last may acts rely =>
    generalize s'.shared = g at acts down ⊢
    cases acts with
    | enqueue => cases up.symm.trans down
    | _ => rfl

/-- A run that ends safe was kept all along. -/
theorem kept_of_safe {first : Threads (Thread n Unit) τ} {run : List (Threads (Thread n Unit) τ)}
    (pooled : Pooled queSize first) (steps : (first :: run).IsChain Moves)
    (down : ((first :: run).getLast (List.cons_ne_nil _ _)).shared.flag = false)
    (safe : Safe ((first :: run).getLast (List.cons_ne_nil _ _))) :
    (first :: run).IsChain Kept ∧ (first.shared.flag = false → Safe first) := by
  induction run generalizing first with
  | nil => exact ⟨List.isChain_singleton _,fun _ => safe⟩
  | cons next run ih =>
    obtain ⟨step,rest⟩ := List.isChain_cons_cons.mp steps
    obtain ⟨i,event,turn⟩ := id step
    have moved := turn_moved turn pooled
    rw [List.getLast_cons_cons] at down safe
    obtain ⟨kept,later⟩ := ih (move_disciplined ends_stable step pooled) rest down safe
    have before (down : next.shared.flag = false) : Safe first :=
      safe_before moved down (later down)
    refine ⟨List.isChain_cons_cons.mpr ⟨⟨fun _ => before,fun down => ?_⟩,kept⟩,fun down => ?_⟩
    · exact safe_unpushed moved (later (flag_moved moved down))
    · exact before (flag_moved moved down)

theorem safe_of_kept {first : Threads (Thread n Unit) τ} {run : List (Threads (Thread n Unit) τ)}
    (pooled : Pooled queSize first) (steps : (first :: run).IsChain Moves)
    (kept : (first :: run).IsChain Kept) (start : first.shared.flag = false → Safe first) :
    ∀ s ∈ first :: run, Pooled queSize s ∧ (s.shared.flag = false → Safe s) := by
  apply always_of_guarded (P := fun s => Pooled queSize s ∧ (s.shared.flag = false → Safe s))
    steps kept ⟨pooled,start⟩
  intro s s' held step kept
  obtain ⟨i,event,turn⟩ := id step
  have moved := turn_moved turn held.1
  refine ⟨move_disciplined ends_stable step held.1,fun down => ?_⟩
  cases flag : s.shared.flag with
  | true => exact safe_after moved (lowering_pushed moved flag down) (kept.1 flag down)
  | false => exact safe_after moved (kept.2 flag) (held.2 flag)

/-- `FileServer::stop` has returned and the loop has ended: every task that was put in the
queue has been executed, once, exactly when the run was kept. -/
theorem stop_keeps_tasks_iff {run : List (Threads (Thread n Unit) τ)} {last : Threads (Thread n Unit) τ}
    (steps : (serving n queSize τ :: run).IsChain Moves)
    (ends : (serving n queSize τ :: run).getLast (List.cons_ne_nil _ _) = last)
    (stopped : (last.threads .stopper).1 = .ret ())
    (looped : (last.threads (.feeder ())).1 = .ret ()) :
    (last.shared.executed.map fun x => some x.2).Perm last.shared.pushed ↔
      (serving n queSize τ :: run).IsChain Kept := by
  have reached := always_of_kept (P := Pooled queSize) steps serving_pooled
    fun s s' pooled step => move_disciplined ends_stable step pooled
  have pooled := reached last (ends ▸ List.getLast_mem _)
  have stopper := pooled.threads .stopper
  have feeder := pooled.threads (.feeder ())
  rw [stopped] at stopper
  rw [looped] at feeder
  have down : last.shared.flag = false := pooled.shared.woken stopper.2.woken
  have executed := executed_perm pooled.shared stopper.2
  have nobody (t : Thread n Unit) : ¬ Taking last t := by
    intro taking
    cases t with
    | worker i => exact (pooled.shared.finished _ (stopper.2.exited _ (by simp [workers]))).2.2 taking.1
    | feeder k => exact feeder.free taking.1
    | stopper => exact stopper.1.free taking.1
  have empty : Safe last ↔ last.shared.que = [] := by
    refine ⟨fun safe => ?_,.inl⟩
    obtain nothing | ⟨t,_,_,taking⟩ := safe
    · exact nothing
    · exact absurd taking (nobody t)
  constructor
  · intro all
    have lengths := executed.length_eq.symm.trans all.length_eq
    rw [pooled.shared.fifo,List.length_append] at lengths
    have safe : Safe last := empty.mpr (List.length_eq_zero_iff.mp (by omega))
    subst ends
    exact (kept_of_safe serving_pooled steps down safe).1
  · intro kept
    have safe := (safe_of_kept serving_pooled steps kept (fun down => by cases down) last
      (ends ▸ List.getLast_mem _)).2 down
    rw [pooled.shared.fifo,empty.mp safe,List.append_nil]
    exact executed

end server

section sample

def serveScript : Script (Thread 1 Unit) Nat where
  all := [.worker (Fin.last 0),.feeder (),.stopper]
  asked _ _ := none
  messages g := if g.pushed.length < 1 then [some 7] else []

theorem serve_all (t : Thread 1 Unit) : t ∈ serveScript.all := by
  cases t with
  | worker i => simp [serveScript,Fin.eq_zero i]
  | feeder k => simp [serveScript]
  | stopper => simp [serveScript]

/-- The worker waits and a message comes. After `early` steps of the loop the pool is stopped,
then the loop. -/
def servePlayed (early work late : Nat) : Option (Threads (Thread 1 Unit) Nat) :=
  (serving 1 1 Nat).play serveScript.respond
    (List.replicate 7 (.worker (Fin.last 0)) ++ List.replicate early (.feeder ()) ++
      List.replicate work (.worker (Fin.last 0)) ++ List.replicate 5 .stopper ++
      List.replicate 10 (.worker (Fin.last 0)) ++ List.replicate 2 .stopper ++
      List.replicate late (.feeder ()))

end sample

theorem sample_stop_keeps_tasks_iff : ∃ last run, servePlayed 12 17 3 = some last ∧
    (serving 1 1 Nat :: run).IsChain Moves ∧ last.shared.pushed = [some 7] ∧
    ((last.shared.executed.map fun x => some x.2).Perm last.shared.pushed ↔
      (serving 1 1 Nat :: run).IsChain Kept) := by
  obtain ⟨last,played⟩ : ∃ last, servePlayed 12 17 3 = some last := ⟨_,rfl⟩
  have seen : (servePlayed 12 17 3).map (fun s =>
    (returned s .stopper,returned s (.feeder ()),s.shared.pushed)) = some (true,true,[some 7]) := rfl
  rw [played] at seen
  obtain ⟨stopped,seen⟩ := Prod.mk.inj (Option.some.inj seen)
  obtain ⟨looped,pushed⟩ := Prod.mk.inj seen
  obtain ⟨run,steps,ends⟩ := List.exists_isChain_cons_of_relationReflTransGen
    (Script.play_moves serve_all played)
  exact ⟨last,run,played,steps,pushed,
    stop_keeps_tasks_iff steps ends (returned_eq stopped) (returned_eq looped)⟩

/-- The message is put in the queue after the pool was stopped and before the loop is. -/
theorem task_lost : ¬ ∀ (n queSize : Nat) (last : Threads (Thread n Unit) Nat),
    Relation.ReflTransGen Moves (serving n queSize Nat) last →
    (last.threads .stopper).1 = .ret () → (last.threads (.feeder ())).1 = .ret () →
    ∀ task ∈ last.shared.pushed, task ∈ last.shared.executed.map fun x => some x.2 := by
  intro executed
  obtain ⟨last,played⟩ : ∃ last, servePlayed 4 0 8 = some last := ⟨_,rfl⟩
  have seen : (servePlayed 4 0 8).map (fun s => (returned s .stopper,returned s (.feeder ()),
    s.shared.pushed,s.shared.executed)) = some (true,true,[some 7],[]) := rfl
  rw [played] at seen
  obtain ⟨stopped,seen⟩ := Prod.mk.inj (Option.some.inj seen)
  obtain ⟨looped,seen⟩ := Prod.mk.inj seen
  obtain ⟨pushed,nothing⟩ := Prod.mk.inj seen
  have all := executed 1 1 last (Script.play_moves serve_all played) (returned_eq stopped)
    (returned_eq looped)
  rw [pushed,nothing] at all
  simp at all

end FilediskServer.ThreadPool
