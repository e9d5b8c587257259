import FilediskServer.QueueDiscipline

/-! `push`, `pop` and `wakeup` keep to the discipline of the queue, and what a thread knows
when they return. -/
namespace FilediskServer.TaskQueue
open Interaction PoolCalls
variable {ι τ : Type}

/-- A last call that does not say what comes next. -/
def Fresh (l : Last ι τ) : Prop := l ≠ some ⟨.readFlag,true⟩ ∧ ∀ task, l ≠ some ⟨.front,task⟩

/-- A call after which any other may come. -/
def Other : Call ι τ → Prop
  | .readFlag | .front => False
  | _ => True

theorem fresh_other {c : Call ι τ} {r : c.Res} (other : Other c) : Fresh (some ⟨c,r⟩ : Last ι τ) := by
  constructor
  · intro same
    cases same
    cases other
  · intro task same
    cases same
    cases other

variable [DecidableEq ι]

/-- A thread that is outside of the queue's methods. -/
structure Outside (i : ι) (held : ElemType τ) (w : Last ι τ × Shared ι τ) : Prop where
  fresh : Fresh w.1
  alive : w.2.exited i = false
  holds : Holds w.2 i held
  running : w.2.mutex.waiting i = .running
  free : w.2.mutex.owner ≠ some i

theorem outside_new (i : ι) : Outside i none ((none : Last ι τ),Shared.new ι τ) where
  fresh := ⟨nofun,nofun⟩
  alive := rfl
  holds := rfl
  running := rfl
  free own := by cases own

variable [Fintype ι] {roles : Roles ι}

theorem sound_new : Sound roles (Shared.new ι τ) where
  fifo := rfl
  bounded := Nat.zero_le _
  filled _ task inside := by cases inside
  awake i own := by cases own
  waits i c waits := by rcases waits with asleep | signalled <;> contradiction
  balanced _ c _ asleep := by
    obtain ⟨i,asleep⟩ := asleep
    cases asleep
  up _ := rfl
  woken woken := by cases woken
  holds i := ⟨none,rfl⟩
  idle _ _ := rfl
  finished i exited := by cases exited

/-- A thread inside, with the mutex. It may owe one signal. -/
structure Inside (roles : Roles ι) (i : ι) (held : ElemType τ) (due : Option Condition)
    (que : List (ElemType τ)) (w : Last ι τ × Shared ι τ) : Prop where
  fresh : Fresh w.1
  alive : w.2.exited i = false
  holds : Holds w.2 i held
  own : w.2.mutex.owner = some i
  que : w.2.que = que
  balanced : ∀ c, Balanced roles w.2 c (if due = some c then 1 else 0)

/-- A thread that has given up the mutex to wait on `c`, and where it is in its sleep. -/
structure Aside (i : ι) (held : ElemType τ) (stages : List (Waiting Condition))
    (w : Last ι τ × Shared ι τ) : Prop where
  fresh : Fresh w.1
  alive : w.2.exited i = false
  holds : Holds w.2 i held
  waiting : w.2.mutex.waiting i ∈ stages

abbrev Keeps (roles : Roles ι) (i : ι) {α : Type} (p : Job ι τ α)
    (post : Except Empty α → Last ι τ × Shared ι τ → Prop) (w : Last ι τ × Shared ι τ) : Prop :=
  Wp (Relied (Sys i) (Rely roles i) (Sound roles))
    (Throughout (Rely roles i) (Sound roles) (May roles i)) p post w

abbrev Disciplined (roles : Roles ι) (post : ι → Except Empty Unit → Last ι τ × Shared ι τ → Prop)
    (s : Threads ι τ) : Prop :=
  Guaranteed Sys (Rely roles) (Sound roles) (May roles) post s

theorem move_disciplined {post : ι → Except Empty Unit → Last ι τ × Shared ι τ → Prop}
    {s s' : Threads ι τ} (stable : ∀ i out, Stable (Rely roles i) (post i out)) (move : Moves s s')
    (holds : Disciplined roles post s) : Disciplined roles post s' := by
  obtain ⟨i,event,turn⟩ := move
  exact (turn_guaranteed respects stable turn holds).2

/-- What a step of one thread can do. -/
inductive Moved (roles : Roles ι) (i : ι) (s s' : Threads ι τ) : Prop
  | silent (running : ∀ a, (s.threads i).1 ≠ .ret a)
      (others : ∀ j, j ≠ i → s'.threads j = s.threads j)
      (last : (s'.threads i).2 = (s.threads i).2) (same : s'.shared = s.shared)
  | call (c : Call ι τ) (r : c.Res) (running : ∀ a, (s.threads i).1 ≠ .ret a)
      (others : ∀ j, j ≠ i → s'.threads j = s.threads j) (last : (s'.threads i).2 = some ⟨c,r⟩)
      (may : May roles i ((s.threads i).2,s.shared) c) (acts : Acts i s.shared c r s'.shared)
      (rely : ∀ j, j ≠ i → Rely roles j s.shared s'.shared)

theorem turn_moved {post : ι → Except Empty Unit → Last ι τ × Shared ι τ → Prop}
    {s s' : Threads ι τ} {i : ι} {event : Option (Event (signature ι τ))}
    (turn : Turn Sys i s event s') (holds : Disciplined roles post s) : Moved roles i s s' := by
  have running (a : Unit) : (s.threads i).1 ≠ .ret a := by
    intro ended
    cases turn with
    | mk up step =>
      rw [ended] at step
      cases step
  have others (j : ι) (other : j ≠ i) : s'.threads j = s.threads j := turn_other turn other
  cases turn with
  | @mk p l g up step =>
    have allowed := (wp_step (step_relied holds.shared step) (holds.threads i)).1
    rcases step_acts step with ⟨_,same⟩ | ⟨c,r,rfl,acts⟩
    · obtain ⟨rfl,rfl⟩ := Prod.mk.inj same
      exact .silent running others (by simp) rfl
    · have may := allowed _ rfl _ (refl_of (Rely roles i) _) holds.shared
      have moved := respects i _ _ c r l g holds.shared may acts
      exact .call c r running others (by simpa using acts.2) may acts.1 moved.2

theorem moves_disciplined {post : ι → Except Empty Unit → Last ι τ × Shared ι τ → Prop}
    {s s' : Threads ι τ} (stable : ∀ i out, Stable (Rely roles i) (post i out))
    (moves : Relation.ReflTransGen Moves s s') (holds : Disciplined roles post s) :
    Disciplined roles post s' := by
  induction moves with
  | refl => exact holds
  | tail _ move ih => exact move_disciplined stable move ih

section stable
variable {i : ι} {held : ElemType τ} {due : Option Condition} {que : List (ElemType τ)}
  {l : Last ι τ} {g g' : Shared ι τ}

theorem Outside.moved (rely : Rely roles i g g') (outside : Outside i held (l,g)) :
    Outside i held (l,g') where
  fresh := outside.fresh
  alive := rely.exited.trans outside.alive
  holds := (holds_kept rely.taken rely.executed).mpr outside.holds
  running := rely.mutex.running outside.running
  free own := outside.free (rely.mutex.owner.mpr own)

theorem Inside.moved (rely : Rely roles i g g') (inside : Inside roles i held due que (l,g)) :
    Inside roles i held due que (l,g') where
  fresh := inside.fresh
  alive := rely.exited.trans inside.alive
  holds := (holds_kept rely.taken rely.executed).mpr inside.holds
  own := rely.mutex.owner.mp inside.own
  que := (rely.que inside.own).1.trans inside.que
  balanced c := (rely.que inside.own).2 c _ (inside.balanced c)

theorem Aside.moved {stages : List (Waiting Condition)}
    (closed : ∀ c, .asleep c ∈ stages → .signalled c ∈ stages) (rely : Rely roles i g g')
    (aside : Aside i held stages (l,g)) : Aside i held stages (l,g') where
  fresh := aside.fresh
  alive := rely.exited.trans aside.alive
  holds := (holds_kept rely.taken rely.executed).mpr aside.holds
  waiting := by
    have waiting := aside.waiting
    rcases rely.mutex.waiting with same | ⟨c,slept,woken⟩
    · rwa [same]
    · rw [slept] at waiting
      rw [woken]
      exact closed c waiting

/-- What there is none of is not owed. -/
theorem Inside.settled {c : Condition} (inside : Inside roles i held (some c) que (l,g))
    (nothing : supply roles que c = 0) : Inside roles i held none que (l,g) := by
  refine ⟨inside.fresh,inside.alive,inside.holds,inside.own,inside.que,fun c' flag => ?_⟩
  by_cases same : c = c'
  · subst same
    intro _
    rw [inside.que,nothing]
    exact Nat.zero_le _
  · have balanced := inside.balanced c' flag
    simpa [same] using balanced

/-- Once the flag is down nothing is owed. -/
theorem Inside.lowered (inside : Inside roles i held due que (l,g)) (down : g.flag = false) :
    Inside roles i held none que (l,g) := by
  refine ⟨inside.fresh,inside.alive,inside.holds,inside.own,inside.que,fun c flag => ?_⟩
  rw [down] at flag
  cases flag

theorem Inside.owing (due : Option Condition) (inside : Inside roles i held none que (l,g)) :
    Inside roles i held due que (l,g) := by
  refine ⟨inside.fresh,inside.alive,inside.holds,inside.own,inside.que,fun c flag => ?_⟩
  apply (inside.balanced c flag).shift
  simp

end stable

section rules
variable {i : ι} {held : ElemType τ} {due : Option Condition} {que : List (ElemType τ)}
  {α : Type} {post : Except Empty α → Last ι τ × Shared ι τ → Prop} {l : Last ι τ}
  {g : Shared ι τ} {w : Last ι τ × Shared ι τ}

/-- No call of these programs throws. -/
theorem keeps_bind {β : Type} {p : Job ι τ α} {f : α → Job ι τ β}
    {mid : Except Empty α → Last ι τ × Shared ι τ → Prop}
    {post : Except Empty β → Last ι τ × Shared ι τ → Prop} (first : Keeps roles i p mid w)
    (rest : ∀ a w, mid (.ok a) w → Keeps roles i (f a) post w) :
    Keeps roles i (p.bind f) post w := by
  apply wp_bind
  apply wp_mono _ first
  intro out w reached
  cases out with
  | ok a => exact rest a w reached
  | error e => cases e

theorem may_fresh {c : Call ι τ} (fresh : Fresh w.1) (alive : w.2.exited i = false)
    (other : c ≠ .dequeue) (allowed : Allowed roles i w c) : May roles i w c := by
  refine ⟨alive,allowed,⟨fun same => absurd same other,fun front => ?_⟩,
    fun tested => absurd tested fresh.1⟩
  obtain ⟨task,front⟩ := front
  exact absurd front (fresh.2 task)

theorem keeps_call {c : Call ι τ} {k : c.Res → Job ι τ α} {J : Shared ι τ → Prop}
    (stable : ∀ g g', Rely roles i g g' → J g → J g') (now : J g)
    (calls : ∀ g, Sound roles g → J g → May roles i (l,g) c ∧ ∀ r g', Acts i g c r g' →
      Keeps roles i (k r) post (some ⟨c,r⟩,g')) : Keeps roles i (.call c k) post (l,g) := by
  apply wp_relied (J := fun w => J w.2) (fun _ g g' => stable g g') now
  intro g sound now
  obtain ⟨may,rest⟩ := calls g sound now
  refine ⟨may,fun r w' acts => ?_⟩
  obtain ⟨l',g'⟩ := w'
  obtain ⟨acts,rfl⟩ := acts
  exact rest r g' acts

/-- The calls that any thread may make at any time, and that leave the queue alone. -/
def Plain : Call ι τ → Prop
  | .size | .readIsExit | .sleep _ | .setIsLooping _ | .readIsLooping | .waitEpollFd => True
  | _ => False

theorem keeps_plain {c : Call ι τ} {k : c.Res → Job ι τ α} (plain : Plain c)
    (outside : Outside i held (l,g))
    (rest : ∀ r g, Outside i held (some ⟨c,r⟩,g) → Keeps roles i (k r) post (some ⟨c,r⟩,g)) :
    Keeps roles i (.call c k) post (l,g) := by
  apply keeps_call (fun _ _ => Outside.moved) outside
  intro g _ outside
  cases c with
  | size | readIsExit | sleep | setIsLooping | readIsLooping | waitEpollFd =>
    refine ⟨may_fresh outside.fresh outside.alive (by simp) trivial,fun r g' acts => ?_⟩
    apply rest r g'
    cases acts
    exact ⟨fresh_other trivial,outside.alive,outside.holds,outside.running,outside.free⟩
  | mutex | enqueue | front | dequeue | readFlag | clearFlag | callback | setIsExit | exit | join
    | next => cases plain

theorem keeps_lock {k : Unit → Job ι τ α} (outside : Outside i held (l,g))
    (rest : ∀ que w, Inside roles i held none que w → Keeps roles i (k ()) post w) :
    Keeps roles i (.call (.mutex .lock) k) post (l,g) := by
  apply keeps_call (fun _ _ => Outside.moved) outside
  intro g sound outside
  refine ⟨may_fresh outside.fresh outside.alive (by simp) outside.running,fun r g' acts => ?_⟩
  cases acts with
  | mutex acts =>
    cases acts with
    | lock free =>
      apply rest g.que
      exact ⟨fresh_other trivial,outside.alive,outside.holds,rfl,rfl,sound.balanced free⟩

theorem keeps_unlock {k : Unit → Job ι τ α} (inside : Inside roles i held none que (l,g))
    (rest : ∀ w, Outside i held w → Keeps roles i (k ()) post w) :
    Keeps roles i (.call (.mutex .unlock) k) post (l,g) := by
  apply keeps_call (fun _ _ => Inside.moved) inside
  intro g sound inside
  refine ⟨may_fresh inside.fresh inside.alive (by simp) ⟨inside.own,inside.balanced⟩,
    fun r g' acts => ?_⟩
  cases acts with
  | mutex acts =>
    cases acts with
    | unlock =>
      apply rest
      exact ⟨fresh_other trivial,inside.alive,inside.holds,sound.awake i inside.own,by simp⟩

theorem keeps_size {k : Nat → Job ι τ α} (inside : Inside roles i held due que (l,g))
    (rest : ∀ w, Inside roles i held due que w → Keeps roles i (k que.length) post w) :
    Keeps roles i (.call .size k) post (l,g) := by
  apply keeps_call (fun _ _ => Inside.moved) inside
  intro g _ inside
  refine ⟨may_fresh inside.fresh inside.alive (by simp) trivial,fun r g' acts => ?_⟩
  cases acts with
  | size read =>
    have alone (j : ι) (own : g.mutex.owner = some j) : j = i := Option.some.inj (own.symm.trans inside.own)
    rw [read alone,inside.que]
    apply rest
    exact ⟨fresh_other trivial,inside.alive,inside.holds,inside.own,inside.que,inside.balanced⟩

/-- What is known after a read of `_flag` does not depend on the last call. -/
theorem keeps_readFlag {k : Bool → Job ι τ α} (inside : Inside roles i held due que (l,g))
    (up : ∀ g', Inside roles i held due que (none,g') → g.flag ≠ false →
      Keeps roles i (k true) post (some ⟨.readFlag,true⟩,g'))
    (down : ∀ w, Inside roles i held due que w → w.2.flag = false → Keeps roles i (k false) post w) :
    Keeps roles i (.call .readFlag k) post (l,g) := by
  apply keeps_call (J := fun g' => Inside roles i held due que (l,g') ∧
    (g.flag = false → g'.flag = false)) _ ⟨inside,id⟩
  · intro g' _ now
    obtain ⟨inside,lowered⟩ := now
    obtain ⟨fresh,alive,holds,own,same,balanced⟩ := inside
    refine ⟨may_fresh fresh alive (by simp) trivial,fun r g'' acts => ?_⟩
    obtain ⟨rfl,rfl⟩ := acts_readFlag acts
    cases flag : g''.flag with
    | true =>
      apply up g'' ⟨⟨nofun,nofun⟩,alive,holds,own,same,balanced⟩
      intro before
      rw [lowered before] at flag
      cases flag
    | false => exact down _ ⟨⟨nofun,nofun⟩,alive,holds,own,same,balanced⟩ flag
  · intro g' g'' rely now
    exact ⟨now.1.moved rely,fun lowered => rely.flag (now.2 lowered)⟩

theorem keeps_enqueue {k : Unit → Job ι τ α} {task : ElemType τ} (produces : roles.produces i)
    (filled : ¬ roles.emptyTasks → task ≠ none)
    (inside : Inside roles i held (some .notFull) que (l,g)) (room : que.length ≠ roles.queSize)
    (rest : ∀ w, Inside roles i held (some .notEmpty) (que ++ [task]) w →
      Keeps roles i (k ()) post w) :
    Keeps roles i (.call (.enqueue task) k) post (l,g) := by
  apply keeps_call (fun _ _ => Inside.moved) inside
  intro g sound inside
  obtain ⟨fresh,alive,holds,own,rfl,balanced⟩ := inside
  have room : g.que.length < roles.queSize := lt_of_le_of_ne sound.bounded room
  refine ⟨may_fresh fresh alive (by simp) ⟨own,produces,room,filled⟩,fun r g' acts => ?_⟩
  cases acts with
  | enqueue =>
    apply rest
    refine ⟨fresh_other trivial,alive,holds,own,rfl,fun c flag => (balanced c flag).shift ?_⟩
    cases c with
    | notEmpty => simp [supply]
    | notFull => simp [supply]; omega

/-- `front` and the `_que.pop` after it. -/
theorem keeps_take {k : ElemType τ → Unit → Job ι τ α} (consumes : roles.consumes i)
    (inside : Inside roles i none (some .notEmpty) que (none,g)) (occupied : que ≠ [])
    (rest : ∀ task rest w, Inside roles i task (some .notFull) rest w →
      Keeps roles i (k task ()) post w) :
    Keeps roles i (.call .front fun task => .call .dequeue (k task)) post
      (some ⟨.readFlag,true⟩,g) := by
  apply keeps_call (fun _ _ => Inside.moved) inside
  intro g _ inside
  have may : May roles i (some ⟨.readFlag,true⟩,g) .front :=
    ⟨inside.alive,⟨inside.own,consumes,inside.que ▸ occupied,rfl⟩,⟨nofun,nofun⟩,fun _ => .inl rfl⟩
  refine ⟨may,fun task g' acts => ?_⟩
  cases acts with
  | @front _ que' first =>
    obtain rfl := inside.que.symm.trans first
    apply keeps_call (fun _ _ => Inside.moved) inside
    intro g sound inside
    have may : May roles i (some ⟨.front,task⟩,g) .dequeue :=
      ⟨inside.alive,⟨inside.own,consumes,inside.holds⟩,⟨fun _ => ⟨task,rfl⟩,fun _ => rfl⟩,nofun⟩
    refine ⟨may,fun r g' acts => ?_⟩
    cases acts with
    | dequeue second =>
      obtain ⟨rfl,rfl⟩ := List.cons.inj (second.symm.trans inside.que)
      apply rest
      refine ⟨fresh_other trivial,inside.alive,holds_dequeue inside.holds,inside.own,rfl,
        fun c flag => ?_⟩
      apply (inside.balanced c flag).shift
      have bound := sound.bounded
      rw [second,List.length_cons] at bound
      cases c with
      | notEmpty => simp [supply,second]
      | notFull => simp [supply,second]; omega

theorem keeps_notify {k : Unit → Job ι τ α} {c : Condition}
    (inside : Inside roles i held (some c) que (l,g))
    (rest : ∀ w, Inside roles i held none que w → Keeps roles i (k ()) post w) :
    Keeps roles i (.call (.mutex (.notify c)) k) post (l,g) := by
  apply keeps_call (fun _ _ => Inside.moved) inside
  intro g _ inside
  refine ⟨may_fresh inside.fresh inside.alive (by simp) inside.own,fun r g' acts => ?_⟩
  cases acts with
  | mutex acts =>
    apply rest
    refine ⟨fresh_other trivial,inside.alive,inside.holds,
      (Monitor.owner_notify acts).trans inside.own,inside.que,fun c' flag => ?_⟩
    have balanced := inside.balanced c' flag
    by_cases same : c = c'
    · subst same
      exact Monitor.owed_notify acts (by simpa using balanced)
    · apply Monitor.owed_kept acts _ (by simp) (by simp)
      simpa [same] using balanced

/-- What a thread has done before it waits: a consumer has read `_flag`. -/
def Tested (l : Last ι τ) : Condition → Prop
  | .notEmpty => l = some ⟨.readFlag,true⟩
  | .notFull => Fresh l

theorem keeps_sleep {k : Unit → Job ι τ α} {c : Condition} {l' : Last ι τ} (waits : Waits roles i c)
    (inside : Inside roles i held none que (l',g)) (nothing : supply roles que c = 0)
    (tested : Tested l c)
    (rest : ∀ w, Aside i held [.asleep c,.signalled c] w → Keeps roles i (k ()) post w) :
    Keeps roles i (.call (.mutex (.sleep c)) k) post (l,g) := by
  apply keeps_call (fun _ _ => Inside.moved) inside
  intro g _ inside
  have may : May roles i (l,g) (.mutex (.sleep c)) := by
    cases c with
    | notEmpty =>
      obtain rfl := tested
      exact ⟨inside.alive,⟨inside.own,inside.balanced,waits,inside.que ▸ nothing,fun _ => rfl⟩,
        ⟨nofun,nofun⟩,fun _ => .inr rfl⟩
    | notFull =>
      exact may_fresh tested inside.alive (by simp)
        ⟨inside.own,inside.balanced,waits,inside.que ▸ nothing,by simp⟩
  refine ⟨may,fun r g' acts => ?_⟩
  cases acts with
  | mutex acts =>
    cases acts with
    | sleep =>
      apply rest
      exact ⟨fresh_other trivial,inside.alive,inside.holds,by simp⟩

theorem keeps_rise {k : Unit → Job ι τ α} {c : Condition}
    (asleep : Aside i held [.asleep c,.signalled c] (l,g))
    (rest : ∀ w, Aside i held [.signalled c,.risen] w → Keeps roles i (k ()) post w) :
    Keeps roles i (.call (.mutex (.rise c)) k) post (l,g) := by
  apply keeps_call (fun _ _ => Aside.moved (by simp)) asleep
  intro g _ asleep
  refine ⟨may_fresh asleep.fresh asleep.alive (by simp) trivial,fun r g' acts => ?_⟩
  cases acts with
  | mutex acts =>
    apply rest
    cases acts with
    | called signalled => exact ⟨fresh_other trivial,asleep.alive,asleep.holds,by simp [signalled]⟩
    | spurious => exact ⟨fresh_other trivial,asleep.alive,asleep.holds,by simp⟩

/-- With the mutex a thread may have taken up a signal. -/
theorem keeps_relock {k : Unit → Job ι τ α} {c : Condition}
    (risen : Aside i held [.signalled c,.risen] (l,g))
    (rest : ∀ que w, Inside roles i held (some c) que w → Keeps roles i (k ()) post w) :
    Keeps roles i (.call (.mutex .relock) k) post (l,g) := by
  apply keeps_call (fun _ _ => Aside.moved (by simp)) risen
  intro g sound risen
  refine ⟨may_fresh risen.fresh risen.alive (by simp) trivial,fun r g' acts => ?_⟩
  cases acts with
  | mutex acts =>
    apply rest g.que
    obtain ⟨free,own⟩ := Monitor.owner_relock acts
    refine ⟨fresh_other trivial,risen.alive,risen.holds,own,rfl,fun c' flag => ?_⟩
    have balanced := sound.balanced free c' flag
    by_cases same : c = c'
    · subst same
      simpa using Monitor.owed_relock acts balanced
    · have unheard : g.mutex.waiting i ≠ .signalled c' := by
        intro signalled
        simpa [signalled,Ne.symm same] using risen.waiting
      simpa [same] using Monitor.owed_kept acts balanced (fun _ => unheard) (by simp)

/-- The round of a waiting loop that waits. A thread waits for what there is none of. -/
theorem keeps_round {c : Condition} {l' : Last ι τ}
    {post : Except Empty (Unit ⊕ Unit) → Last ι τ × Shared ι τ → Prop}
    (waits : Waits roles i c) (inside : Inside roles i held none que (l',g))
    (nothing : supply roles que c = 0) (tested : Tested l c)
    (again : ∀ que w, Inside roles i held (some c) que w → post (.ok (.inl ())) w) :
    Keeps roles i ((wait c).bind fun () => .ret (.inl ())) post (l,g) := by
  apply keeps_sleep waits inside nothing tested
  intro w asleep
  apply keeps_rise asleep
  intro w risen
  apply keeps_relock risen
  intro que w inside
  exact again que w inside

theorem keeps_push {task : ElemType τ} (produces : roles.produces i)
    (filled : ¬ roles.emptyTasks → task ≠ none) (outside : Outside i held (l,g)) :
    Keeps roles i (push roles.queSize task) (fun _ w => Outside i held w) (l,g) := by
  apply keeps_lock outside
  intro que w inside
  apply wp_loop (J := fun _ w => ∃ que, Inside roles i held (some .notFull) que w)
    (Q := fun _ w => ∃ que, Inside roles i held (some .notFull) que w ∧
      que.length ≠ roles.queSize) ⟨que,inside.owing _⟩
  · intro _ w inside
    obtain ⟨que,inside⟩ := inside
    apply keeps_size inside
    intro w inside
    change Keeps roles i (if roles.queSize == que.length then _ else .ret (Sum.inr () : Unit ⊕ Unit))
      _ w
    by_cases full : roles.queSize = que.length
    · have nothing : supply roles que .notFull = 0 := by simp [supply,full]
      rw [if_pos (beq_iff_eq.mpr full)]
      apply keeps_round (c := .notFull) produces (inside.settled nothing) nothing inside.fresh
      exact fun que w inside => ⟨que,inside⟩
    · rw [if_neg (by simpa using full)]
      exact ⟨que,inside,Ne.symm full⟩
  · intro _ w inside
    obtain ⟨que,inside,room⟩ := inside
    apply keeps_enqueue produces filled inside room
    intro w inside
    apply keeps_notify inside
    intro w inside
    apply keeps_unlock inside
    intro w outside
    exact outside

theorem keeps_pop (consumes : roles.consumes i) (outside : Outside i none (l,g)) :
    Keeps roles i pop (fun out w => ∃ task, out = .ok task ∧ Outside i task w) (l,g) := by
  apply keeps_lock outside
  intro que w inside
  apply wp_loop (J := fun _ w => ∃ que, Inside roles i none (some .notEmpty) que w)
    (Q := fun _ w => ∃ que, Inside roles i none (some .notEmpty) que w ∧
      (que = [] → w.2.flag = false)) ⟨que,inside.owing _⟩
  · intro _ w inside
    obtain ⟨que,inside⟩ := inside
    apply keeps_size inside
    intro w inside
    cases que with
    | nil =>
      apply keeps_readFlag inside
      · intro g inside _
        apply keeps_round (c := .notEmpty) consumes (inside.settled rfl) rfl rfl
        exact fun que w inside => ⟨que,inside⟩
      · intro w inside down
        exact ⟨[],inside,fun _ => down⟩
    | cons task rest => exact ⟨task :: rest,inside,by simp⟩
  · intro _ w inside
    obtain ⟨que,inside,down⟩ := inside
    apply keeps_readFlag inside
    · intro g inside up
      apply keeps_take consumes inside fun none => up (down none)
      intro task rest w inside
      apply keeps_notify inside
      intro w inside
      apply keeps_unlock inside
      intro w outside
      exact ⟨task,rfl,outside⟩
    · intro w inside lowered
      apply keeps_unlock (inside.lowered lowered)
      intro w outside
      exact ⟨none,rfl,outside⟩

theorem keeps_clearFlag {k : Unit → Job ι τ α} (wakes : roles.wakes i)
    (outside : Outside i held (l,g))
    (rest : ∀ w, Outside i held w → w.2.flag = false → Keeps roles i (k ()) post w) :
    Keeps roles i (.call .clearFlag k) post (l,g) := by
  apply keeps_call (fun _ _ => Outside.moved) outside
  intro g _ outside
  refine ⟨may_fresh outside.fresh outside.alive (by simp) wakes,fun r g' acts => ?_⟩
  cases acts with
  | clearFlag =>
    apply rest
    · exact ⟨fresh_other trivial,outside.alive,outside.holds,outside.running,outside.free⟩
    · rfl

theorem keeps_notifyAll {k : Unit → Job ι τ α} (wakes : roles.wakes i)
    (outside : Outside i held (l,g)) (down : g.flag = false)
    (rest : ∀ w, Outside i held w → w.2.woken = true → Keeps roles i (k ()) post w) :
    Keeps roles i (.call (.mutex (.notifyAll .notEmpty)) k) post (l,g) := by
  apply keeps_call (J := fun g => Outside i held (l,g) ∧ g.flag = false) _ ⟨outside,down⟩
  · intro g _ outside
    obtain ⟨outside,down⟩ := outside
    refine ⟨may_fresh outside.fresh outside.alive (by simp) ⟨rfl,wakes,down⟩,fun r g' acts => ?_⟩
    cases acts with
    | mutex acts =>
      cases acts with
      | notifyAll =>
        apply rest
        · have running : g.mutex.waiting i = .running := outside.running
          exact ⟨fresh_other trivial,outside.alive,outside.holds,by simp [running],outside.free⟩
        · simp
  · intro g g' rely now
    exact ⟨now.1.moved rely,rely.flag now.2⟩

theorem keeps_wakeup (wakes : roles.wakes i) (outside : Outside i held (l,g)) :
    Keeps roles i wakeup (fun _ w => Outside i held w ∧ w.2.woken = true) (l,g) := by
  apply keeps_clearFlag wakes outside
  intro w outside down
  apply keeps_notifyAll wakes outside down
  intro w outside woken
  exact ⟨outside,woken⟩

/-- Whoever pops a task has it to run, and otherwise nothing. -/
theorem keeps_popped {f : Option τ → Job ι τ α} (consumes : roles.consumes i)
    (outside : Outside i none (l,g))
    (rest : ∀ task w, Outside i task w → Keeps roles i (f task) post w) :
    Keeps roles i (pop.bind f) post (l,g) := by
  apply keeps_bind (keeps_pop consumes outside)
  intro task w popped
  obtain ⟨_,same,outside⟩ := popped
  cases same
  exact rest task w outside

theorem keeps_callback {k : Unit → Job ι τ α} {task : τ} (consumes : roles.consumes i)
    (outside : Outside i (some task) (l,g))
    (rest : ∀ w, Outside i none w → Keeps roles i (k ()) post w) :
    Keeps roles i (.call (.callback task) k) post (l,g) := by
  apply keeps_call (fun _ _ => Outside.moved) outside
  intro g _ outside
  refine ⟨may_fresh outside.fresh outside.alive (by simp) ⟨consumes,outside.holds⟩,
    fun r g' acts => ?_⟩
  cases acts with
  | callback =>
    apply rest
    exact ⟨fresh_other trivial,outside.alive,holds_callback outside.holds,outside.running,
      outside.free⟩

theorem keeps_next {k : Option (QueueCall τ) → Job ι τ α} (outside : Outside i none (l,g))
    (rest : ∀ request w, Outside i none w → Keeps roles i (k request) post w) :
    Keeps roles i (.call .next k) post (l,g) := by
  apply keeps_call (fun _ _ => Outside.moved) outside
  intro g _ outside
  refine ⟨may_fresh outside.fresh outside.alive (by simp) outside.holds,fun r g' acts => ?_⟩
  cases acts with
  | next =>
    apply rest
    exact ⟨fresh_other trivial,outside.alive,outside.holds,outside.running,outside.free⟩

/-- What a client asks for is its part. -/
structure Suits (roles : Roles ι) (i : ι) (accepts : QueueCall τ → Bool) : Prop where
  push : ∀ task, accepts (.push task) = true →
    roles.produces i ∧ (¬ roles.emptyTasks → task ≠ none)
  pop : accepts .pop = true → roles.consumes i
  wakeup : accepts .wakeup = true → roles.wakes i

theorem keeps_serve {accepts : QueueCall τ → Bool} {request : QueueCall τ}
    (suits : Suits roles i accepts) (accepted : accepts request = true)
    (outside : Outside i none (l,g)) :
    Keeps roles i (serve roles.queSize request) (fun _ w => Outside i none w) (l,g) := by
  cases request with
  | push task =>
    obtain ⟨produces,filled⟩ := suits.push task accepted
    exact keeps_push produces filled outside
  | pop =>
    apply keeps_popped (suits.pop accepted) outside
    intro task w outside
    cases task with
    | none => exact outside
    | some task =>
      apply keeps_callback (suits.pop accepted) outside
      intro w outside
      exact outside
  | wakeup =>
    apply wp_mono _ (keeps_wakeup (suits.wakeup accepted) outside)
    exact fun out w woken => woken.1

theorem keeps_client {accepts : QueueCall τ → Bool} (suits : Suits roles i accepts)
    (outside : Outside i none (l,g)) :
    Keeps roles i (client roles.queSize accepts) (fun _ w => Outside i none w) (l,g) := by
  apply wp_loop (J := fun _ w => Outside i none w) (Q := fun _ w => Outside i none w) outside
  · intro _ w outside
    apply keeps_next outside
    intro request w outside
    cases request with
    | none => exact outside
    | some request =>
      change Keeps roles i (if accepts request then (serve roles.queSize request).bind fun _ =>
        .ret (Sum.inl () : Unit ⊕ Unit) else .ret (.inr ())) _ w
      split
      next accepted =>
        apply keeps_bind (keeps_serve suits accepted outside)
        intro _ w outside
        exact outside
      next => exact outside
  · intro _ w outside
    exact outside

end rules

end FilediskServer.TaskQueue
