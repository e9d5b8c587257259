import FilediskServer.FileServer
import FilediskServer.Library.Threads

/-! How long a `FileTask` lives, and when its call runs. `onMessage` constructs it on its own
stack, posts a call that points to it, and returns. -/
namespace FilediskServer.Lifetimes
open Interaction Bytes Calls FileServer

/-- Every thread in a call of `process` has its object still there. -/
def Safe (s : State) : Prop :=
  ∀ i task job, s.threads i = some (task,job) → s.statusOf task = some .live

/-- `onMessage` returns when the call that it posted is over. -/
def ReturnsAfter (s s' : State) : Prop := ∀ task rest, s.loop = .leave task rest →
  s'.loop = .events rest → ¬ s.Outstanding task

structure Held (s : State) : Prop where
  sound : Sound s
  live : ∀ task, s.Outstanding task → s.statusOf task = some .live
  posting : ∀ task rest, s.loop = .push task rest → s.statusOf task = some .live

theorem held_start (store : Store) : Held (State.start store) :=
  ⟨sound_start store,fun task held => absurd held (not_outstanding_start store task),nofun⟩

theorem safe_of_held {s : State} (held : Held s) : Safe s := fun i task job running =>
  held.live task ⟨.running i,by simp [State.callAt,running]⟩

section steps
variable {cfg : Config} {s s' : State}

theorem held_step (held : Held s) (step : ServerStep cfg s s') (returns : ReturnsAfter s s') :
    Held s' := by
  have kept {task : Nat} (live : s.statusOf task = some .live) (made : s.objects task ≠ none)
      (stays : ∀ rest, s.loop = .leave task rest → s'.loop = .events rest → False) :
      s'.statusOf task = some .live := by
    cases server_objects step task with
    | kept same => rwa [State.statusOf,same]
    | constructed c new grown becomes => simp [State.statusOf,becomes]
    | destroyed rest here leaves => exact (stays rest here leaves).elim
  refine ⟨sound_step held.sound step,fun task after => ?_,fun task rest here => ?_⟩
  · rcases outstanding_before step after with before | ⟨rest,here,_⟩
    · exact kept (held.live task before) (held.sound.known task before)
        fun rest here leaves => returns task rest here leaves before
    · apply kept (held.posting task rest here) (held.sound.newest task rest here).2.1
      intro _ left
      rw [here] at left
      cases left
  · rcases server_push step here with ⟨before,_⟩ | ⟨rfl,_,made⟩
    · apply kept (held.posting task rest before) (held.sound.newest task rest before).2.1
      intro _ left
      rw [before] at left
      cases left
    · cases server_objects step s.made with
      | kept same => exact absurd (same.trans (held.sound.fresh _ le_rfl)) made
      | constructed c new grown becomes => simp [State.statusOf,becomes]
      | destroyed rest here leaves becomes =>
        exact absurd (by rw [becomes,held.sound.fresh _ le_rfl]; rfl) made

theorem destroyed_kept {task : Nat} (sound : Sound s) (step : ServerStep cfg s s')
    (gone : s.statusOf task = some .destroyed) : s'.statusOf task = some .destroyed := by
  cases server_objects step task with
  | kept same => rwa [State.statusOf,same]
  | constructed c new =>
    unfold State.statusOf at gone
    rw [sound.fresh task new.le] at gone
    cases gone
  | destroyed rest here leaves becomes =>
    unfold State.statusOf at gone ⊢
    rw [becomes]
    cases object : s.objects task with
    | none => rw [object] at gone; cases gone
    | some o => rfl

theorem server_que {task : Nat} (step : ServerStep cfg s s') (queued : task ∈ s.que) :
    task ∈ s'.que ∨ ∃ i job, s'.threads i = some (task,job) := by
  cases step with
  | client _ step => cases step <;> exact .inl queued
  | loop _ step =>
    cases step with
    | push => exact .inl (List.mem_append_left _ queued)
    | epollWait | roundOver | accept | acceptFails | unknown | closed | onMessage | leave =>
      exact .inl queued
  | thread _ step =>
    cases step with
    | @pop i first rest thread idle que =>
      rw [que] at queued
      rcases List.mem_cons.mp queued with rfl | later
      · exact .inr ⟨i,_,Function.update_self ..⟩
      · exact .inl later
    | process | finish | terminate | sigpipe => exact .inl queued

theorem server_leave {task : Nat} {rest : List Fd} (step : ServerStep cfg s s')
    (here : s.loop = .leave task rest) (leaves : s'.loop = .events rest) : s' = {s with
      objects := Function.update s.objects task ((s.objects task).map Object.destroy),
      loop := .events rest} := by
  cases step with
  | client _ step => cases step <;> (rw [here] at leaves; cases leaves)
  | thread _ step => cases step <;> (rw [here] at leaves; cases leaves)
  | loop _ step =>
    cases step with
    | leave here' =>
      obtain ⟨rfl,rfl⟩ := Loop.leave.inj (here.symm.trans here')
      rfl
    | epollWait here' | roundOver here' | accept here' | acceptFails here' | unknown here'
      | closed here' | onMessage here' | push here' =>
      rw [here] at here'
      cases here'

theorem unsafe_of_queued {task : Nat} {first : State} {run : List State}
    (steps : (first :: run).IsChain (ServerStep cfg)) (sound : Sound first) (queued : task ∈ first.que)
    (gone : first.statusOf task = some .destroyed)
    (drained : ((first :: run).getLast (List.cons_ne_nil _ _)).que = []) :
    ∃ s ∈ run, ¬ Safe s := by
  induction run generalizing first with
  | nil =>
    rw [List.getLast_singleton] at drained
    rw [drained] at queued
    cases queued
  | cons next run ih =>
    obtain ⟨step,rest⟩ := List.isChain_cons_cons.mp steps
    have still := destroyed_kept sound step gone
    rcases server_que step queued with stays | ⟨i,job,running⟩
    · obtain ⟨s,inside,started⟩ := ih rest (sound_step sound step) stays still
        (by rwa [List.getLast_cons_cons] at drained)
      exact ⟨s,List.mem_cons_of_mem _ inside,started⟩
    · refine ⟨next,List.mem_cons_self,fun safe => ?_⟩
      rw [safe i task job running] at still
      cases still

theorem returns_after_of_safe {first : State} {run : List State}
    (steps : (first :: run).IsChain (ServerStep cfg)) (sound : Sound first)
    (drained : ((first :: run).getLast (List.cons_ne_nil _ _)).que = [])
    (safe : ∀ s ∈ run, Safe s) : (first :: run).IsChain ReturnsAfter := by
  induction run generalizing first with
  | nil => exact .singleton _
  | cons next run ih =>
    obtain ⟨step,others⟩ := List.isChain_cons_cons.mp steps
    have sound' := sound_step sound step
    rw [List.getLast_cons_cons] at drained
    refine List.isChain_cons_cons.mpr ⟨?_,ih others sound' drained fun s inside =>
      safe s (List.mem_cons_of_mem _ inside)⟩
    -- The step that returns destroys the object of a call that is queued or running.
    intro task rest here leaves ⟨p,held⟩
    have after := server_leave step here leaves
    have gone : next.statusOf task = some .destroyed := by
      rw [after,State.statusOf]
      dsimp only
      rw [Function.update_self]
      cases object : first.objects task with
      | none => exact absurd object (sound.known task ⟨p,held⟩)
      | some o => rfl
    cases p with
    | queued k =>
      have queued : task ∈ next.que := by
        rw [after]
        exact List.mem_of_getElem? held
      obtain ⟨s,inside,started⟩ := unsafe_of_queued others sound' queued gone drained
      exact started (safe s (List.mem_cons_of_mem _ inside))
    | running i =>
      obtain ⟨⟨_,job⟩,running,rfl⟩ := Option.map_eq_some_iff.mp held
      have live := safe next List.mem_cons_self i _ job (by rw [after]; exact running)
      rw [live] at gone
      cases gone

end steps

/-- Along every run of the server no thread uses a destroyed object, if `onMessage` returns
only after its call. In a run that works off its queue nothing else helps. -/
theorem safe_iff {cfg : Config} {store : Store} {run : List State}
    (steps : (State.start store :: run).IsChain (ServerStep cfg)) :
    ((State.start store :: run).IsChain ReturnsAfter → ∀ s ∈ State.start store :: run, Safe s) ∧
    (((State.start store :: run).getLast (List.cons_ne_nil _ _)).que = [] →
      (∀ s ∈ State.start store :: run, Safe s) → (State.start store :: run).IsChain ReturnsAfter) := by
  constructor
  · intro returns s inside
    exact safe_of_held (always_of_guarded steps returns (held_start store)
      (fun _ _ held step returns => held_step held step returns) s inside)
  · intro drained safe
    exact returns_after_of_safe steps (sound_start store) drained fun s inside =>
      safe s (List.mem_cons_of_mem _ inside)

theorem sample_safe_iff : ∃ run, sampleConnected.posted 0 ∈ State.start sampleStore :: run ∧
    ((State.start sampleStore :: run).IsChain ReturnsAfter →
      ∀ s ∈ State.start sampleStore :: run, Safe s) ∧
    (((State.start sampleStore :: run).getLast (List.cons_ne_nil _ _)).que = [] →
      (∀ s ∈ State.start sampleStore :: run, Safe s) →
      (State.start sampleStore :: run).IsChain ReturnsAfter) := by
  have unread : (sampleConnected.conns 0).input ≠ [] := by decide
  obtain ⟨run,steps,inside⟩ := exists_run (sample_connected.trans
    (can_post rfl rfl (sample_readable rfl rfl unread) unread (by decide)))
  exact ⟨run,inside,safe_iff steps⟩

/-- `onMessage` has returned when a thread takes the call. -/
theorem destroyed_object_run : ¬ ∀ (cfg : Config) (store : Store) (run : List State),
    (State.start store :: run).IsChain (ServerStep cfg) →
    ∀ s ∈ State.start store :: run, Safe s := by
  intro safe
  have unread : (sampleConnected.conns 0).input ≠ [] := by decide
  have posted : Relation.ReflTransGen (ServerStep sampleConfig) (State.start sampleStore)
      (sampleConnected.posted 0) :=
    sample_connected.trans (can_post rfl rfl (sample_readable rfl rfl unread) unread (by decide))
  obtain ⟨run,steps,inside⟩ := exists_run (posted.tail (@can_pop _ _ 0 0 [] rfl (by decide) rfl rfl))
  have live := safe _ _ run steps _ inside 0 0 _ rfl
  exact absurd live (by decide)

end FilediskServer.Lifetimes
