import FilediskServer.TaskQueue

/-! The discipline under which any number of threads share the queue: what each may call and
when, what it can count on in between, and what all of them keep. -/
namespace FilediskServer.TaskQueue
open Interaction PoolCalls

/-- Who may do what, and whether tasks may be empty. -/
structure Roles (ι : Type) where
  queSize : Nat
  emptyTasks : Prop
  produces : ι → Prop
  consumes : ι → Prop
  wakes : ι → Prop

section
variable {ι τ : Type} [DecidableEq ι]

def takenBy (g : Shared ι τ) (i : ι) : List τ :=
  g.taken.filterMap fun x => if x.1 = i then x.2 else none

def executedBy (g : Shared ι τ) (i : ι) : List τ :=
  g.executed.filterMap fun x => if x.1 = i then some x.2 else none

/-- What a thread took it has executed, in that order, but for what it holds. -/
def Holds (g : Shared ι τ) (i : ι) (held : ElemType τ) : Prop :=
  takenBy g i = executedBy g i ++ held.toList

variable [Fintype ι] {roles : Roles ι}

/-- What a condition variable announces: tasks, or free slots. -/
def supply (roles : Roles ι) (que : List (ElemType τ)) : Condition → Nat
  | .notEmpty => que.length
  | .notFull => roles.queSize - que.length

/-- Until `wakeup`, all but `k` of the supply are matched by threads signalled for it, if a
thread waits unsignalled. -/
def Balanced (roles : Roles ι) (g : Shared ι τ) (c : Condition) (k : Nat) : Prop :=
  g.flag = true → g.mutex.Owed c (supply roles g.que c) k

def Waits (roles : Roles ι) (i : ι) : Condition → Prop
  | .notEmpty => roles.consumes i
  | .notFull => roles.produces i

structure Sound (roles : Roles ι) (g : Shared ι τ) : Prop where
  fifo : g.pushed = g.taken.map Prod.snd ++ g.que
  bounded : g.que.length ≤ roles.queSize
  filled : ¬ roles.emptyTasks → ∀ task ∈ g.pushed, task ≠ none
  awake : ∀ i, g.mutex.owner = some i → g.mutex.waiting i = .running
  waits : ∀ i c, g.mutex.waiting i = .asleep c ∨ g.mutex.waiting i = .signalled c →
    Waits roles i c
  balanced : g.mutex.owner = none → ∀ c, Balanced roles g c 0
  up : (∀ i, ¬ roles.wakes i) → g.flag = true
  woken : g.woken = true → g.flag = false
  holds : ∀ i, ∃ held, Holds g i held
  idle : ∀ i, ¬ roles.consumes i → Holds g i none
  finished : ∀ i, g.exited i = true → Holds g i none ∧ g.mutex.waiting i = .running ∧
    g.mutex.owner ≠ some i

def Allowed (roles : Roles ι) (i : ι) (w : Last ι τ × Shared ι τ) : Call ι τ → Prop
  | .mutex .lock => w.2.mutex.waiting i = .running
  | .mutex .unlock => w.2.mutex.owner = some i ∧ ∀ c, Balanced roles w.2 c 0
  | .mutex (.sleep c) => w.2.mutex.owner = some i ∧ (∀ c, Balanced roles w.2 c 0) ∧
      Waits roles i c ∧ supply roles w.2.que c = 0 ∧
      (c = .notEmpty → w.1 = some ⟨.readFlag,true⟩)
  | .mutex (.notify _) => w.2.mutex.owner = some i
  | .mutex (.notifyAll c) => c = .notEmpty ∧ roles.wakes i ∧ w.2.flag = false
  | .enqueue task => w.2.mutex.owner = some i ∧ roles.produces i ∧
      w.2.que.length < roles.queSize ∧ (¬ roles.emptyTasks → task ≠ none)
  | .front => w.2.mutex.owner = some i ∧ roles.consumes i ∧ w.2.que ≠ [] ∧
      w.1 = some ⟨.readFlag,true⟩
  | .dequeue => w.2.mutex.owner = some i ∧ roles.consumes i ∧ Holds w.2 i none
  | .clearFlag => roles.wakes i
  | .callback task => roles.consumes i ∧ Holds w.2 i (some task)
  | .setIsExit => roles.wakes i ∧ w.1 = some ⟨.size,(0 : Nat)⟩
  | .exit => Holds w.2 i none ∧ w.2.mutex.waiting i = .running ∧ w.2.mutex.owner ≠ some i
  | .join _ => w.2.woken = true
  | .next => Holds w.2 i none
  | _ => True

/-- What a thread that has not ended may call. `_que.pop` comes after `front` and nothing
else does; after `_flag` was read as true comes `front` or a wait. -/
structure May (roles : Roles ι) (i : ι) (w : Last ι τ × Shared ι τ) (c : Call ι τ) : Prop where
  alive : w.2.exited i = false
  allowed : Allowed roles i w c
  order : c = .dequeue ↔ ∃ task, w.1 = some ⟨.front,task⟩
  tested : w.1 = some ⟨.readFlag,true⟩ → c = .front ∨ c = .mutex (.sleep .notEmpty)

structure Rely (roles : Roles ι) (i : ι) (g g' : Shared ι τ) : Prop where
  mutex : Monitor.Bystands i g.mutex g'.mutex
  que : g.mutex.owner = some i → g'.que = g.que ∧ ∀ c k, Balanced roles g c k → Balanced roles g' c k
  flag : g.flag = false → g'.flag = false
  isExit : g.isExit = true → g'.isExit = true
  woken : g.woken = true → g'.woken = true
  taken : takenBy g' i = takenBy g i
  executed : executedBy g' i = executedBy g i
  exited : g'.exited i = g.exited i
  finished : ∀ j, g.exited j = true → g'.exited j = true

instance (i : ι) : IsPreorder (Shared ι τ) (Rely roles i) where
  refl g := ⟨Monitor.bystands_refl i _,fun _ => ⟨rfl,fun _ _ => id⟩,id,id,id,rfl,rfl,rfl,
    fun _ => id⟩
  trans g g' g'' first second := by
    refine ⟨Monitor.bystands_trans first.mutex second.mutex,fun own => ?_,
      second.flag ∘ first.flag,second.isExit ∘ first.isExit,second.woken ∘ first.woken,
      second.taken.trans first.taken,
      second.executed.trans first.executed,second.exited.trans first.exited,
      fun j finished => second.finished j (first.finished j finished)⟩
    obtain ⟨que,balanced⟩ := first.que own
    obtain ⟨que',balanced'⟩ := second.que (first.mutex.owner.mp own)
    exact ⟨que'.trans que,fun c k held => balanced' c k (balanced c k held)⟩

variable {i j : ι} {l : Last ι τ} {g g' : Shared ι τ}

omit [Fintype ι] in
theorem holds_kept {held : ElemType τ} (taken : takenBy g' i = takenBy g i)
    (executed : executedBy g' i = executedBy g i) : Holds g' i held ↔ Holds g i held := by
  unfold Holds
  rw [taken,executed]

theorem mutex_respects {o : MonitorOp Condition} {m : Monitor ι Condition} (sound : Sound roles g)
    (may : May roles i (l,g) (.mutex o)) (acts : Monitor.Acts i g.mutex o m) :
    Sound roles {g with mutex := m, woken := g.woken || decide (o = .notifyAll .notEmpty)} ∧
      ∀ j, j ≠ i → Rely roles j g
        {g with mutex := m, woken := g.woken || decide (o = .notifyAll .notEmpty)} := by
  obtain ⟨alive,may,-,-⟩ := may
  have owns : o = .unlock ∨ (∃ c, o = .sleep c) → g.mutex.owner = some i := by
    intro gives
    rcases gives with rfl | ⟨c,rfl⟩ <;> exact may.1
  have others (j : ι) (other : j ≠ i) := Monitor.acts_bystands acts other owns
  have gone {j : ι} (exited : g.exited j = true) : j ≠ i := by
    intro same
    rw [same,alive] at exited
    cases exited
  constructor
  · refine ⟨sound.fifo,sound.bounded,sound.filled,?_,fun j c waits => ?_,fun free c flag => ?_,
      sound.up,fun woken => ?_,sound.holds,sound.idle,fun j exited => ?_⟩
    · apply Monitor.awake_kept acts sound.awake
      intro locks
      subst locks
      exact may
    · rcases Monitor.waits_before acts waits with before | ⟨rfl,rfl⟩
      · exact sound.waits j c before
      · exact may.2.2.1
    · -- The mutex is free again after `unlock` and `sleep`, or it was free before.
      cases acts with
      | lock | relock => cases free
      | unlock => exact may.2 c flag
      | @sleep c' =>
        by_cases same : c' = c
        · subst same
          intro _
          exact (may.2.2.2.1.le).trans (Nat.zero_le _)
        · apply Monitor.owed_kept .sleep (may.2.1 c flag) (by simp)
          intro d slept
          cases slept
          exact ⟨same,sound.awake i may.1⟩
      | called | unheard => exact sound.balanced free c flag
      | spurious asleep =>
        exact Monitor.owed_kept (.spurious asleep) (sound.balanced free c flag) (by simp) (by simp)
      | notify => exact absurd (free.symm.trans may) (by simp)
      | notifyAll =>
        exact Monitor.owed_kept (i := i) .notifyAll (sound.balanced free c flag) (by simp) (by simp)
    · rcases (Bool.or_eq_true _ _).mp woken with before | now
      · exact sound.woken before
      · rw [of_decide_eq_true now] at may
        exact may.2.2
    · obtain ⟨none,running,free⟩ := sound.finished j exited
      have aside := others j (gone exited)
      exact ⟨none,aside.running running,fun own => free (aside.owner.mpr own)⟩
  · intro j other
    refine ⟨others j other,fun own => ⟨rfl,fun c k balanced flag => ?_⟩,id,id,fun woken => ?_,rfl,
      rfl,rfl,fun _ => id⟩
    · have taken : g.mutex.owner ≠ some i := by
        rw [own]
        exact fun same => other (Option.some.inj same)
      apply Monitor.owed_kept acts (balanced flag)
      · intro relocks
        subst relocks
        cases acts with
        | relock free => exact absurd (own.symm.trans free) (by simp)
      · intro c' sleeps
        exact absurd (owns (.inr ⟨c',sleeps⟩)) taken
    · simp [woken]

omit [Fintype ι] in
theorem takenBy_append {task : ElemType τ} (after : g'.taken = g.taken ++ [(i,task)]) (j : ι) :
    takenBy g' j = takenBy g j ++ (if i = j then task else none).toList := by
  unfold takenBy
  rw [after,List.filterMap_append]
  by_cases same : i = j <;> cases task <;> simp [same]

omit [Fintype ι] in
theorem executedBy_append {task : τ} (after : g'.executed = g.executed ++ [(i,task)]) (j : ι) :
    executedBy g' j = executedBy g j ++ (if i = j then some task else none).toList := by
  unfold executedBy
  rw [after,List.filterMap_append]
  by_cases same : i = j <;> simp [same]

omit [Fintype ι] in
theorem holds_dequeue {task : ElemType τ} {rest : List (ElemType τ)} (empty : Holds g i none) :
    Holds {g with que := rest, taken := g.taken ++ [(i,task)]} i task := by
  unfold Holds at empty ⊢
  rw [takenBy_append (g := g) rfl,empty]
  simp [executedBy]

omit [Fintype ι] in
theorem holds_callback {task : τ} (held : Holds g i (some task)) :
    Holds {g with executed := g.executed ++ [(i,task)]} i none := by
  unfold Holds at held ⊢
  rw [executedBy_append (g := g) rfl]
  simpa [takenBy] using held

omit [Fintype ι] in
theorem takenBy_filled (filled : ∀ x ∈ g.taken, x.2 ≠ none) (i : ι) :
    g.taken.filterMap (fun x => if x.1 = i then some x.2 else none) = (takenBy g i).map some := by
  rw [takenBy,List.map_filterMap]
  apply List.filterMap_congr
  intro x inside
  obtain ⟨task,same⟩ := Option.ne_none_iff_exists'.mp (filled x inside)
  by_cases mine : x.1 = i <;> simp [mine,same]

/-- What one thread took or executed is no matter of the others. -/
theorem holds_after {held : ElemType τ} (sound : Sound roles g) (alive : g.exited i = false)
    (consumes : roles.consumes i) (own : Holds g' i held)
    (others : ∀ j, j ≠ i → ∀ held, Holds g j held → Holds g' j held) :
    (∀ j, ∃ held, Holds g' j held) ∧ (∀ j, ¬ roles.consumes j → Holds g' j none) ∧
      ∀ j, g.exited j = true → Holds g' j none := by
  refine ⟨fun j => ?_,fun j idle => ?_,fun j exited => ?_⟩
  · by_cases same : j = i
    · exact ⟨held,same ▸ own⟩
    · obtain ⟨held,before⟩ := sound.holds j
      exact ⟨held,others j same held before⟩
  · exact others j (fun same => idle (same ▸ consumes)) none (sound.idle j idle)
  · apply others j _ none (sound.finished j exited).1
    intro same
    rw [same,alive] at exited
    cases exited

theorem enqueue_respects {task : ElemType τ} (sound : Sound roles g)
    (may : May roles i (l,g) (.enqueue task)) :
    Sound roles {g with que := g.que ++ [task], pushed := g.pushed ++ [task]} ∧
      ∀ j, j ≠ i → Rely roles j g {g with que := g.que ++ [task], pushed := g.pushed ++ [task]} := by
  obtain ⟨own,-,room,filled⟩ := may.allowed
  constructor
  · refine ⟨by simp [sound.fifo],by simpa using Nat.succ_le_of_lt room,fun tasks task' inside => ?_,
      sound.awake,sound.waits,fun free => ?_,sound.up,sound.woken,sound.holds,sound.idle,sound.finished⟩
    · rcases List.mem_append.mp inside with old | new
      · exact sound.filled tasks task' old
      · exact List.mem_singleton.mp new ▸ filled tasks
    · exact absurd (free.symm.trans own) (by simp)
  · intro j other
    refine ⟨Monitor.bystands_refl j _,fun theirs => ?_,id,id,id,rfl,rfl,rfl,fun _ => id⟩
    exact absurd (Option.some.inj (theirs.symm.trans own)) other

theorem dequeue_respects {task : ElemType τ} {rest : List (ElemType τ)} (sound : Sound roles g)
    (may : May roles i (l,g) .dequeue) (first : g.que = task :: rest) :
    Sound roles {g with que := rest, taken := g.taken ++ [(i,task)]} ∧
      ∀ j, j ≠ i → Rely roles j g {g with que := rest, taken := g.taken ++ [(i,task)]} := by
  obtain ⟨own,consumes,empty⟩ := may.allowed
  set g' : Shared ι τ := {g with que := rest, taken := g.taken ++ [(i,task)]}
  have grown := takenBy_append (show g'.taken = g.taken ++ [(i,task)] from rfl)
  have others (j : ι) (other : j ≠ i) : takenBy g' j = takenBy g j := by
    simp [grown,other.symm]
  obtain ⟨holds,idle,finished⟩ := holds_after sound may.alive consumes (holds_dequeue empty)
    fun j other held => (holds_kept (others j other) rfl).mpr
  constructor
  · refine ⟨by simp [g',sound.fifo,first],?_,sound.filled,sound.awake,sound.waits,fun free => ?_,sound.up,sound.woken,
      holds,idle,fun j exited => ⟨finished j exited,(sound.finished j exited).2⟩⟩
    · have bound := sound.bounded
      rw [first,List.length_cons] at bound
      exact (Nat.le_succ _).trans bound
    · exact absurd (free.symm.trans own) (by simp)
  · intro j other
    refine ⟨Monitor.bystands_refl j _,fun theirs => ?_,id,id,id,others j other,rfl,rfl,
      fun _ => id⟩
    exact absurd (Option.some.inj (theirs.symm.trans own)) other

theorem callback_respects {task : τ} (sound : Sound roles g)
    (may : May roles i (l,g) (.callback task)) :
    Sound roles {g with executed := g.executed ++ [(i,task)]} ∧
      ∀ j, j ≠ i → Rely roles j g {g with executed := g.executed ++ [(i,task)]} := by
  obtain ⟨consumes,held⟩ := may.allowed
  set g' : Shared ι τ := {g with executed := g.executed ++ [(i,task)]}
  have grown := executedBy_append (show g'.executed = g.executed ++ [(i,task)] from rfl)
  have others (j : ι) (other : j ≠ i) : executedBy g' j = executedBy g j := by
    simp [grown,other.symm]
  obtain ⟨holds,idle,finished⟩ := holds_after sound may.alive consumes (holds_callback held)
    fun j other held => (holds_kept (show takenBy g' j = takenBy g j from rfl) (others j other)).mpr
  constructor
  · exact ⟨sound.fifo,sound.bounded,sound.filled,sound.awake,sound.waits,sound.balanced,sound.up,sound.woken,holds,idle,
      fun j exited => ⟨finished j exited,(sound.finished j exited).2⟩⟩
  · intro j other
    exact ⟨Monitor.bystands_refl j _,fun _ => ⟨rfl,fun _ _ => id⟩,id,id,id,rfl,others j other,rfl,
      fun _ => id⟩

theorem exit_respects (sound : Sound roles g) (may : May roles i (l,g) .exit) :
    Sound roles {g with exited := Function.update g.exited i true} ∧
      ∀ j, j ≠ i → Rely roles j g {g with exited := Function.update g.exited i true} := by
  obtain ⟨empty,running,free⟩ := may.allowed
  constructor
  · refine ⟨sound.fifo,sound.bounded,sound.filled,sound.awake,sound.waits,sound.balanced,sound.up,sound.woken,sound.holds,
      sound.idle,fun j exited => ?_⟩
    by_cases same : j = i
    · subst same
      exact ⟨empty,running,free⟩
    · exact sound.finished j ((Function.update_of_ne same ..).symm.trans exited)
  · intro j other
    refine ⟨Monitor.bystands_refl j _,fun _ => ⟨rfl,fun _ _ => id⟩,id,id,id,rfl,rfl,
      Function.update_of_ne other ..,fun k exited => ?_⟩
    by_cases same : k = i
    · rw [same]
      exact Function.update_self ..
    · exact (Function.update_of_ne same ..).trans exited

/-- Whoever keeps to what it may do leaves the queue sound and does nothing that another
thread does not expect. -/
theorem respects : Respects Sys (Rely roles) (Sound roles) (May (τ := τ) roles) := by
  intro i l g c r l' g' sound may acts
  obtain ⟨acts,-⟩ := acts
  dsimp only at acts
  cases acts with
  | mutex acts => exact mutex_respects sound may acts
  | size | front | readFlag | readIsExit | sleep | join | readIsLooping | waitEpollFd | next =>
    exact ⟨sound,fun j _ => refl_of (Rely roles j) g⟩
  | enqueue => exact enqueue_respects sound may
  | dequeue first => exact dequeue_respects sound may first
  | callback => exact callback_respects sound may
  | exit => exact exit_respects sound may
  | clearFlag =>
    constructor
    · refine ⟨sound.fifo,sound.bounded,sound.filled,sound.awake,sound.waits,fun _ _ flag => ?_,
        fun nobody => absurd may.allowed (nobody i),fun _ => rfl,sound.holds,sound.idle,sound.finished⟩
      cases flag
    · intro j _
      refine ⟨Monitor.bystands_refl j _,fun _ => ⟨rfl,fun _ _ _ flag => ?_⟩,fun _ => rfl,id,id,rfl,
        rfl,rfl,fun _ => id⟩
      cases flag
  | setIsExit | setIsLooping =>
    constructor
    · exact ⟨sound.fifo,sound.bounded,sound.filled,sound.awake,sound.waits,sound.balanced,sound.up,sound.woken,sound.holds,
        sound.idle,sound.finished⟩
    · intro j _
      exact ⟨Monitor.bystands_refl j _,fun _ => ⟨rfl,fun _ _ => id⟩,id,by simp,id,rfl,rfl,rfl,
        fun _ => id⟩

end

end FilediskServer.TaskQueue
