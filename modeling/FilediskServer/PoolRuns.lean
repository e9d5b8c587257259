import FilediskServer.ThreadPool
import FilediskServer.QueueRuns

/-! The threads around the pool keep to the discipline of its queue. -/
namespace FilediskServer.ThreadPool
open Interaction PoolCalls TaskQueue

section rules
variable {ι τ : Type} [DecidableEq ι]

/-- What `stop` leaves behind. -/
structure Ended (threads : List ι) (g : Shared ι τ) : Prop where
  isExit : g.isExit = true
  woken : g.woken = true
  exited : ∀ th ∈ threads, g.exited th = true

theorem Ended.acted {i : ι} {threads : List ι} {c : Call ι τ} {r : c.Res} {g g' : Shared ι τ}
    (acts : Acts i g c r g') (ended : Ended threads g) : Ended threads g' := by
  cases acts with
  | mutex => exact ⟨ended.isExit,by simp [ended.woken],ended.exited⟩
  | setIsExit => exact ⟨rfl,ended.woken,ended.exited⟩
  | exit =>
    refine ⟨ended.isExit,ended.woken,fun th inside => ?_⟩
    by_cases same : th = i
    · subst same
      exact Function.update_self ..
    · exact (Function.update_of_ne same ..).trans (ended.exited th inside)
  | _ => exact ⟨ended.isExit,ended.woken,ended.exited⟩

theorem isExit_kept {i : ι} {c : Call ι τ} {r : c.Res} {g g' : Shared ι τ} (acts : Acts i g c r g')
    (isExit : g.isExit = true) : g'.isExit = true := by
  cases acts with
  | setIsExit => rfl
  | _ => exact isExit

variable [Fintype ι] {roles : Roles ι} {i : ι} {α : Type}
  {post : Except Empty α → Last ι τ × Shared ι τ → Prop} {l : Last ι τ} {g : Shared ι τ}

theorem keeps_addTask {task : ElemType τ} (produces : roles.produces i)
    (outside : Outside i none (l,g)) :
    Keeps roles i (addTask roles.queSize task) (fun _ w => Outside i none w) (l,g) := by
  cases task with
  | none => exact outside
  | some task => exact keeps_push produces (fun _ => by simp) outside

theorem keeps_adder (produces : roles.produces i) (outside : Outside i none (l,g)) :
    Keeps roles i (adder roles.queSize) (fun _ w => Outside i none w) (l,g) := by
  apply wp_loop (J := fun _ w => Outside i none w) (Q := fun _ w => Outside i none w) outside
  · intro _ w outside
    apply keeps_next outside
    intro request w outside
    rcases request with _ | task | _ | _
    · exact outside
    · apply keeps_bind (keeps_addTask produces outside)
      intro _ w outside
      exact outside
    · exact outside
    · exact outside
  · intro _ w outside
    exact outside

theorem keeps_handleMessages {tasks : List (ElemType τ)} (produces : roles.produces i)
    (outside : Outside i none (l,g)) :
    Keeps roles i (handleMessages roles.queSize tasks) (fun _ w => Outside i none w) (l,g) := by
  induction tasks generalizing l g with
  | nil => exact outside
  | cons task rest ih =>
    apply keeps_bind (keeps_addTask produces outside)
    intro _ w outside
    exact ih outside

theorem keeps_loop (produces : roles.produces i) (outside : Outside i none (l,g)) :
    Keeps roles i (loop roles.queSize) (fun _ w => Outside i none w) (l,g) := by
  apply keeps_plain (c := .setIsLooping true) trivial outside
  intro _ g outside
  apply wp_loop (J := fun _ w => Outside i none w) (Q := fun _ w => Outside i none w) outside
  · intro _ w outside
    apply keeps_plain (c := .readIsLooping) trivial outside
    intro looping g outside
    cases looping with
    | true =>
      apply keeps_plain (c := .waitEpollFd) trivial outside
      intro tasks g outside
      apply keeps_bind (keeps_handleMessages produces outside)
      intro _ w outside
      exact outside
    | false => exact outside
  · intro _ w outside
    exact outside

/-- A worker ends when it has executed all it took. -/
theorem keeps_threadFunc (consumes : roles.consumes i) (outside : Outside i none (l,g)) :
    Keeps roles i threadFunc (fun _ _ => True) (l,g) := by
  apply wp_loop (J := fun _ w => Outside i none w) (Q := fun _ w => Outside i none w) outside
  · intro _ w outside
    apply keeps_plain (c := .readIsExit) trivial outside
    intro isExit g outside
    cases isExit with
    | true => exact outside
    | false =>
      apply keeps_popped consumes outside
      intro task w outside
      cases task with
      | none => exact outside
      | some task =>
        apply keeps_callback consumes outside
        intro w outside
        exact outside
  · intro _ w outside
    obtain ⟨l,g⟩ := w
    apply keeps_call (fun _ _ => Outside.moved) outside
    intro g _ outside
    refine ⟨may_fresh outside.fresh outside.alive (by simp)
      ⟨outside.holds,outside.running,outside.free⟩,fun r g' acts => ?_⟩
    trivial

theorem Ended.moved {threads : List ι} {g' : Shared ι τ} (rely : Rely roles i g g')
    (ended : Ended threads g) : Ended threads g' :=
  ⟨rely.isExit ended.isExit,rely.woken ended.woken,
    fun th inside => rely.finished th (ended.exited th inside)⟩

/-- What all threads keep holds at the end too. -/
theorem keeps_kept {p : Job ι τ α} {keeps : Shared ι τ → Prop} (start : keeps g)
    (acted : ∀ {c r g g'}, Acts i g c r g' → keeps g → keeps g')
    (moved : ∀ {g g'}, Rely roles i g g' → keeps g → keeps g') (holds : Keeps roles i p post (l,g)) :
    Keeps roles i p (fun out w => post out w ∧ keeps w.2) (l,g) := by
  apply wp_kept (K := fun w => keeps w.2) _ start holds
  intro w c r w' before answered
  obtain ⟨g,rely,_,acts,_⟩ := answered
  exact acted acts (moved rely before)

theorem keeps_setIsExit {k : Unit → Job ι τ α} (wakes : roles.wakes i)
    (outside : Outside i none (l,g)) (empty : l = some ⟨.size,(0 : Nat)⟩)
    (rest : ∀ w, Outside i none w → w.2.isExit = true → Keeps roles i (k ()) post w) :
    Keeps roles i (.call .setIsExit k) post (l,g) := by
  apply keeps_call (fun _ _ => Outside.moved) outside
  intro g _ outside
  refine ⟨may_fresh outside.fresh outside.alive (by simp) ⟨wakes,empty⟩,fun r g' acts => ?_⟩
  cases acts with
  | setIsExit =>
    apply rest
    · exact ⟨fresh_other trivial,outside.alive,outside.holds,outside.running,outside.free⟩
    · rfl

theorem keeps_join {k : Unit → Job ι τ α} {th : ι} (outside : Outside i none (l,g))
    (ended : Ended [] g)
    (rest : ∀ w, Outside i none w → Ended [th] w.2 → Keeps roles i (k ()) post w) :
    Keeps roles i (.call (.join th) k) post (l,g) := by
  apply keeps_call (J := fun g => Outside i none (l,g) ∧ Ended [] g) _ ⟨outside,ended⟩
  · intro g _ now
    obtain ⟨outside,ended⟩ := now
    refine ⟨may_fresh outside.fresh outside.alive (by simp) ended.woken,fun r g' acts => ?_⟩
    cases acts with
    | join finished =>
      apply rest
      · exact ⟨fresh_other trivial,outside.alive,outside.holds,outside.running,outside.free⟩
      · exact ⟨ended.isExit,ended.woken,by simpa using finished⟩
  · intro g g' rely now
    exact ⟨now.1.moved rely,now.2.moved rely⟩

theorem keeps_stopThreads {threads : List ι} (outside : Outside i none (l,g))
    (ended : Ended [] g) :
    Keeps roles i (stopThreads threads) (fun _ w => Outside i none w ∧ Ended threads w.2) (l,g) := by
  induction threads generalizing l g with
  | nil => exact ⟨outside,ended⟩
  | cons th rest ih =>
    apply keeps_join outside ended
    intro w outside joined
    apply wp_mono _ (keeps_kept joined Ended.acted Ended.moved (ih outside ⟨joined.isExit,joined.woken,by simp⟩))
    intro out w ended
    obtain ⟨⟨outside,ended⟩,own⟩ := ended
    refine ⟨outside,ended.isExit,ended.woken,?_⟩
    exact List.forall_mem_cons.mpr ⟨own.exited th (by simp),ended.exited⟩

theorem keeps_stop {threads : List ι} (wakes : roles.wakes i) (outside : Outside i none (l,g)) :
    Keeps roles i (stop threads) (fun _ w => Outside i none w ∧ Ended threads w.2) (l,g) := by
  apply wp_loop (J := fun _ w => Outside i none w)
    (Q := fun _ w => Outside i none w ∧ w.1 = some ⟨.size,(0 : Nat)⟩) outside
  · intro _ w outside
    apply keeps_plain (c := .size) trivial outside
    intro size g outside
    cases size with
    | zero => exact ⟨outside,rfl⟩
    | succ =>
      apply keeps_plain (c := .sleep 1) trivial outside
      intro _ g outside
      exact outside
  · intro _ w left
    obtain ⟨outside,empty⟩ := left
    apply keeps_setIsExit wakes outside empty
    intro w outside isExit
    apply keeps_bind (keeps_kept isExit isExit_kept (fun rely => rely.isExit)
      (keeps_wakeup wakes outside))
    intro _ w awake
    obtain ⟨⟨outside,woken⟩,isExit⟩ := awake
    exact keeps_stopThreads outside ⟨isExit,woken,by simp⟩

theorem keeps_stopServer {threads : List ι} (wakes : roles.wakes i)
    (outside : Outside i none (l,g)) :
    Keeps roles i (stopServer threads) (fun _ w => Outside i none w ∧ Ended threads w.2) (l,g) := by
  apply keeps_bind (keeps_stop wakes outside)
  intro _ w stopped
  apply keeps_kept stopped.2 Ended.acted Ended.moved
  exact keeps_plain (c := .setIsLooping false) trivial stopped.1 fun _ _ outside => outside

end rules

end FilediskServer.ThreadPool
