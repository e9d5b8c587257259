import FilediskServer.Library.Linearizable
import FilediskServer.FileServer
import FilediskServer.TaskQueue

/-! `TaskQueue` seen by its callers. Between its call and its return each `push`, `pop` and `wakeup`
takes effect at one moment, as if there were no mutex and nobody had to wait. -/
namespace FilediskServer.TaskQueue
open Interaction PoolCalls
variable {ι τ : Type}

/-- A bounded queue that can be shut down. -/
structure Contents (τ : Type) where
  que : List (ElemType τ)
  flag : Bool

inductive Reply (τ : Type)
  | done
  | popped (task : ElemType τ)
  deriving DecidableEq

/-- There is no effect while the queue is full, or while it is empty and up. -/
inductive Effect (queSize : Nat) (q : Contents τ) : QueueCall τ → Reply τ → Contents τ → Prop
  | push {task : ElemType τ} (room : q.que.length < queSize) :
      Effect queSize q (.push task) .done {q with que := q.que ++ [task]}
  | pop {task : ElemType τ} {rest : List (ElemType τ)} (up : q.flag = true) (first : q.que = task :: rest) :
      Effect queSize q .pop (.popped task) {q with que := rest}
  | down (down : q.flag = false) : Effect queSize q .pop (.popped none) q
  | wakeup : Effect queSize q .wakeup .done {q with flag := false}

theorem effect_bounded {queSize : Nat} {q q' : Contents τ} {request : QueueCall τ} {reply : Reply τ}
    (effect : Effect queSize q request reply q') (bounded : q.que.length ≤ queSize) : q'.que.length ≤ queSize := by
  cases effect with
  | push room => simpa using Nat.succ_le_of_lt room
  | pop up first =>
    rw [first,List.length_cons] at bounded
    exact (Nat.le_succ _).trans bounded
  | down | wakeup => exact bounded

def boundedQueue (queSize : Nat) (τ : Type) : AtomicObject (QueueCall τ) (Reply τ) :=
  ⟨Contents τ,⟨[],true⟩,Effect queSize⟩

def method (queSize : Nat) : QueueCall τ → Job ι τ (Reply τ)
  | .push task => do
    push queSize task
    pure .done
  | .pop => do
    let task ← pop
    pure (.popped task)
  | .wakeup => do
    wakeup
    pure .done

/-- How far a call is. All but the first and the last have the mutex. -/
inductive Phase (τ : Type)
  | outside (request : QueueCall τ)
  /-- with the size that was read since the mutex was taken -/
  | inside (request : QueueCall τ) (size : Option Nat)
  /-- `_flag` was false -/
  | lowered
  /-- `_flag` was true and the queue not empty -/
  | chosen
  /-- `front` gave the task, and `_que.pop` is to come -/
  | holding (task : ElemType τ)
  | closing (reply : Reply τ)
  | answered (reply : Reply τ)

def Phase.Owns : Phase τ → Prop
  | .outside _ | .answered _ => False
  | _ => True

inductive Next (ι : Type) {τ : Type} (queSize : Nat) : Phase τ → (c : Call ι τ) → c.Res → Phase τ → Prop
  | lock {request : QueueCall τ} :
      Next ι queSize (.outside request) (.mutex .lock) () (.inside request none)
  | size {request : QueueCall τ} {seen : Option Nat} {n : Nat} :
      Next ι queSize (.inside request seen) .size n (.inside request (some n))
  | sleep {request : QueueCall τ} {seen : Option Nat} {c : Condition} :
      Next ι queSize (.inside request seen) (.mutex (.sleep c)) () (.outside request)
  | rise {request : QueueCall τ} {c : Condition} :
      Next ι queSize (.outside request) (.mutex (.rise c)) () (.outside request)
  | relock {request : QueueCall τ} :
      Next ι queSize (.outside request) (.mutex .relock) () (.inside request none)
  | enqueue {task : ElemType τ} {n : Nat} (room : n ≠ queSize) :
      Next ι queSize (.inside (.push task) (some n)) (.enqueue task) () (.closing .done)
  | empty : Next ι queSize (.inside .pop (some 0)) .readFlag true (.inside .pop none)
  | lowered {n : Nat} : Next ι queSize (.inside .pop (some n)) .readFlag false .lowered
  | still : Next ι queSize .lowered .readFlag false .lowered
  | chosen {n : Nat} (occupied : n ≠ 0) : Next ι queSize (.inside .pop (some n)) .readFlag true .chosen
  | front {task : ElemType τ} : Next ι queSize .chosen .front task (.holding task)
  | dequeue {task : ElemType τ} : Next ι queSize (.holding task) .dequeue () (.closing (.popped task))
  | notify {reply : Reply τ} {c : Condition} :
      Next ι queSize (.closing reply) (.mutex (.notify c)) () (.closing reply)
  | unlock {reply : Reply τ} : Next ι queSize (.closing reply) (.mutex .unlock) () (.answered reply)
  | leave : Next ι queSize .lowered (.mutex .unlock) () (.answered (.popped none))
  | clearFlag : Next ι queSize (.outside .wakeup) .clearFlag () (.answered .done)
  | notifyAll {reply : Reply τ} {c : Condition} :
      Next ι queSize (.answered reply) (.mutex (.notifyAll c)) () (.answered reply)

/-- The queue as the object has it: who has chosen the first task has taken it. -/
def Phase.left : Phase τ → List (ElemType τ) → List (ElemType τ)
  | .chosen, que | .holding _, que => que.tail
  | _, que => que

/-- Where the effect of a call is, with the queue in memory. -/
def Phase.stage : Phase τ → List (ElemType τ) → Stage (QueueCall τ) (Reply τ)
  | .outside request, _ | .inside request _, _ => .called request
  | .lowered, _ => .done (.popped none)
  | .chosen, que => .done (.popped (que.headD none))
  | .holding task, _ => .done (.popped task)
  | .closing reply, _ | .answered reply, _ => .done reply

/-- What a call knows of the state, with the mutex. -/
def Phase.Knows : Phase τ → Shared ι τ → Prop
  | .inside _ (some n), g => g.que.length = n
  | .lowered, g => g.flag = false
  | .chosen, g => g.que ≠ []
  | .holding task, g => ∃ rest, g.que = task :: rest
  | _, _ => True

structure Agrees (i : ι) (phase : Option (Phase τ)) (g : Shared ι τ) : Prop where
  owner : g.mutex.owner = some i ↔ ∃ p ∈ phase, p.Owns
  knows : ∀ p ∈ phase, p.Knows g

structure Related (queSize : Nat) (phases : ι → Option (Phase τ)) (g : Shared ι τ)
    (a : Atomic ι (boundedQueue queSize τ)) : Prop where
  agrees : ∀ i, Agrees i (phases i) g
  stages : ∀ i, a.stages i = (phases i).elim .idle fun p => p.stage g.que
  bounded : g.que.length ≤ queSize
  flag : a.object.flag = g.flag
  held : ∀ i p, phases i = some p → p.Owns → a.object.que = p.left g.que
  free : g.mutex.owner = none → a.object.que = g.que

variable [DecidableEq ι] {queSize : Nat} {i j : ι} {p p' : Phase τ} {c : Call ι τ} {r : c.Res} {g g' : Shared ι τ}

/-- What a call does leaves to another thread the mutex, and the queue if it has the mutex. -/
theorem others_kept (next : Next ι queSize p c r p') (acts : Acts i g c r g')
    (owner : p.Owns → g.mutex.owner = some i) (other : j ≠ i) :
    (g.mutex.owner = some j ↔ g'.mutex.owner = some j) ∧ (g.mutex.owner = some j → g'.que = g.que) ∧
      (g.flag = false → g'.flag = false) := by
  have apart (owns : p.Owns) : g.mutex.owner ≠ some j := by
    rw [owner owns]
    exact fun same => other (Option.some.inj same).symm
  cases acts with
  | mutex acts =>
    refine ⟨(Monitor.acts_bystands acts other fun gives => owner ?_).owner,fun _ => rfl,id⟩
    rcases gives with rfl | ⟨c,rfl⟩ <;> cases next <;> trivial
  | enqueue | dequeue =>
    have owns : p.Owns := by cases next; trivial
    exact ⟨Iff.rfl,fun theirs => absurd theirs (apart owns),id⟩
  | clearFlag => exact ⟨Iff.rfl,fun _ => rfl,fun _ => rfl⟩
  | _ => exact ⟨Iff.rfl,fun _ => rfl,id⟩

omit [DecidableEq ι] in
theorem agrees_other {phase : Option (Phase τ)} (agrees : Agrees j phase g)
    (owner : g.mutex.owner = some j ↔ g'.mutex.owner = some j) (que : g.mutex.owner = some j → g'.que = g.que)
    (flag : g.flag = false → g'.flag = false) : Agrees j phase g' := by
  refine ⟨owner.symm.trans agrees.owner,fun p here => ?_⟩
  have knows := agrees.knows p here
  have same (owns : p.Owns) : g'.que = g.que := que (agrees.owner.mpr ⟨p,here,owns⟩)
  cases p with
  | inside request size =>
    cases size with
    | none => trivial
    | some n => exact (congrArg List.length (same trivial)).trans knows
  | lowered => exact flag knows
  | chosen => simpa [Phase.Knows,same trivial] using knows
  | holding task => simpa [Phase.Knows,same trivial] using knows
  | outside | closing | answered => trivial

omit [DecidableEq ι] in
theorem stage_other (que : p.Owns → g'.que = g.que) : p.stage g'.que = p.stage g.que := by
  cases p with
  | chosen => rw [que trivial]
  | _ => rfl

theorem agrees_own (next : Next ι queSize p c r p') (acts : Acts i g c r g') (agrees : Agrees i (some p) g) :
    Agrees i (some p') g' := by
  have owner : g.mutex.owner = some i ↔ p.Owns := agrees.owner.trans (by simp)
  have knows := agrees.knows p rfl
  suffices (g'.mutex.owner = some i ↔ p'.Owns) ∧ p'.Knows g' from
    ⟨this.1.trans (by simp),by rintro _ ⟨⟩; exact this.2⟩
  cases next with
  | lock | relock =>
    cases acts with
    | mutex acts => cases acts; exact ⟨iff_of_true rfl trivial,trivial⟩
  | size =>
    have own := owner.mpr trivial
    obtain ⟨rfl,rfl⟩ := acts_size acts fun j other => Option.some.inj (other.symm.trans own)
    exact ⟨owner,rfl⟩
  | sleep | unlock | leave =>
    cases acts with
    | mutex acts => cases acts; exact ⟨iff_of_false (by simp) id,trivial⟩
  | rise | notifyAll =>
    cases acts with
    | mutex acts => cases acts <;> exact ⟨owner,trivial⟩
  | enqueue => cases acts; exact ⟨owner,trivial⟩
  | empty =>
    obtain ⟨-,rfl⟩ := acts_readFlag acts
    exact ⟨owner,trivial⟩
  | lowered | still =>
    obtain ⟨flag,rfl⟩ := acts_readFlag acts
    exact ⟨owner,flag.symm⟩
  | chosen occupied =>
    obtain ⟨-,rfl⟩ := acts_readFlag acts
    refine ⟨owner,fun none => occupied ?_⟩
    rw [← knows,none,List.length_nil]
  | front =>
    cases acts with
    | front first => exact ⟨owner,_,first⟩
  | dequeue => cases acts; exact ⟨owner,trivial⟩
  | notify =>
    cases acts with
    | mutex acts => cases acts <;> exact ⟨owner,trivial⟩
  | clearFlag => cases acts; exact ⟨owner,trivial⟩

/-- Whatever the state answers, the call goes on to a next phase. -/
theorem next_of_acts (may : ∃ r p', Next ι queSize p c r p') (acts : Acts i g c r g') (knows : p.Knows g) :
    ∃ p', Next ι queSize p c r p' := by
  obtain ⟨r',p',next⟩ := may
  cases next with
  | size => exact ⟨_,.size⟩
  | @empty =>
    cases r with
    | true => exact ⟨_,.empty⟩
    | false => exact ⟨_,.lowered⟩
  | @lowered n =>
    cases r with
    | true =>
      by_cases occupied : n = 0
      · subst occupied
        exact ⟨_,.empty⟩
      · exact ⟨_,.chosen occupied⟩
    | false => exact ⟨_,.lowered⟩
  | @chosen n occupied =>
    cases r with
    | true => exact ⟨_,.chosen occupied⟩
    | false => exact ⟨_,.lowered⟩
  | still =>
    obtain ⟨rfl,-⟩ := acts_readFlag acts
    rw [show g.flag = false from knows]
    exact ⟨_,.still⟩
  | front => exact ⟨_,.front⟩
  | lock => exact ⟨_,.lock⟩
  | sleep => exact ⟨_,.sleep⟩
  | rise => exact ⟨_,.rise⟩
  | relock => exact ⟨_,.relock⟩
  | enqueue room => exact ⟨_,.enqueue room⟩
  | dequeue => exact ⟨_,.dequeue⟩
  | notify => exact ⟨_,.notify⟩
  | unlock => exact ⟨_,.unlock⟩
  | leave => exact ⟨_,.leave⟩
  | clearFlag => exact ⟨_,.clearFlag⟩
  | notifyAll => exact ⟨_,.notifyAll⟩

/-- The object after a call has gone on, as far as the thread itself is concerned. -/
structure Advanced (queSize : Nat) (p p' : Phase τ) (g g' : Shared ι τ) (q q' : Contents τ) : Prop where
  flag : q'.flag = g'.flag
  bounded : g'.que.length ≤ queSize
  held : p'.Owns → q'.que = p'.left g'.que
  released : p.Owns → ¬ p'.Owns → q'.que = g'.que
  unheld : ¬ p.Owns → q'.que = q.que ∧ g'.que = g.que
  effect : q' = q ∧ p'.stage g'.que = p.stage g.que ∨ ∃ request reply, p.stage g.que = .called request ∧
    Effect queSize q request reply q' ∧ p'.stage g'.que = .done reply

theorem advanced (next : Next ι queSize p c r p') (acts : Acts i g c r g') (knows : p.Knows g)
    {q : Contents τ} (bounded : g.que.length ≤ queSize) (flag : q.flag = g.flag)
    (held : p.Owns → q.que = p.left g.que) (free : g.mutex.owner = none → q.que = g.que) :
    ∃ q', Advanced queSize p p' g g' q q' := by
  have inside {que : List (ElemType τ)} : p.Owns → ¬ True → que = g'.que := fun _ out => absurd trivial out
  have owned {q' : Contents τ} : ¬ True → q'.que = q.que ∧ g'.que = g.que := fun out => absurd trivial out
  cases next with
  | lock =>
    cases acts with
    | mutex acts =>
      cases acts with
      | lock none => exact ⟨q,flag,bounded,fun _ => free none,nofun,fun _ => ⟨rfl,rfl⟩,.inl ⟨rfl,rfl⟩⟩
  | relock =>
    cases acts with
    | mutex acts =>
      cases acts with
      | relock none => exact ⟨q,flag,bounded,fun _ => free none,nofun,fun _ => ⟨rfl,rfl⟩,.inl ⟨rfl,rfl⟩⟩
  | rise | notifyAll =>
    cases acts with
    | mutex => exact ⟨q,flag,bounded,nofun,nofun,fun _ => ⟨rfl,rfl⟩,.inl ⟨rfl,rfl⟩⟩
  | sleep | unlock | leave =>
    cases acts with
    | mutex => exact ⟨q,flag,bounded,nofun,fun _ _ => held trivial,owned,.inl ⟨rfl,rfl⟩⟩
  | notify =>
    cases acts with
    | mutex => exact ⟨q,flag,bounded,held,inside,owned,.inl ⟨rfl,rfl⟩⟩
  | size =>
    cases acts
    exact ⟨q,flag,bounded,held,inside,owned,.inl ⟨rfl,rfl⟩⟩
  | empty | still =>
    obtain ⟨-,rfl⟩ := acts_readFlag acts
    exact ⟨q,flag,bounded,held,inside,owned,.inl ⟨rfl,rfl⟩⟩
  | @enqueue task n room =>
    cases acts
    have same : q.que = g.que := held trivial
    have more : g.que.length < queSize := lt_of_le_of_ne bounded (ne_of_eq_of_ne knows room)
    refine ⟨{q with que := q.que ++ [task]},flag,?_,fun _ => congrArg (· ++ [task]) same,inside,owned,
      .inr ⟨_,_,rfl,.push (same ▸ more),rfl⟩⟩
    simpa using Nat.succ_le_of_lt more
  | lowered =>
    obtain ⟨down,rfl⟩ := acts_readFlag acts
    exact ⟨q,flag,bounded,held,inside,owned,.inr ⟨_,_,rfl,.down (flag.trans down.symm),rfl⟩⟩
  | chosen occupied =>
    obtain ⟨up,rfl⟩ := acts_readFlag acts
    have same : q.que = g'.que := held trivial
    obtain ⟨task,rest,first⟩ := List.exists_cons_of_ne_nil (List.ne_nil_of_length_pos
      (Nat.pos_of_ne_zero (ne_of_eq_of_ne knows occupied)))
    refine ⟨{q with que := rest},flag,bounded,fun _ => ?_,inside,owned,
      .inr ⟨_,_,rfl,.pop (flag.trans up.symm) (same.trans first),?_⟩⟩
    · simp [Phase.left,first]
    · simp [Phase.stage,first]
  | front =>
    cases acts with
    | front first => exact ⟨q,flag,bounded,held,inside,owned,.inl ⟨rfl,by simp [Phase.stage,first]⟩⟩
  | @dequeue task =>
    cases acts with
    | dequeue first =>
      obtain ⟨rest,known⟩ := knows
      obtain ⟨rfl,rfl⟩ := List.cons.inj (first.symm.trans known)
      refine ⟨q,flag,?_,fun _ => ?_,inside,owned,.inl ⟨rfl,rfl⟩⟩
      · rw [first,List.length_cons] at bounded
        exact (Nat.le_succ _).trans bounded
      · rw [held trivial,Phase.left,first]
        rfl
  | clearFlag =>
    cases acts
    exact ⟨{q with flag := false},rfl,bounded,nofun,nofun,fun _ => ⟨rfl,rfl⟩,.inr ⟨_,_,rfl,.wakeup,rfl⟩⟩

def phases (ι τ : Type) [DecidableEq ι] (queSize : Nat) : Linearization (Acts (τ := τ)) (method (ι := ι) queSize)
    (boundedQueue queSize τ) (Phase τ) where
  first := .outside
  next p c r p' := Next ι queSize p c r p'
  last p reply := p = .answered reply
  related := Related queSize

section methods
variable {α : Type} {request : QueueCall τ} {seen : Option Nat}

abbrev Method (queSize : Nat) (job : Job ι τ α) (post : Except Empty α → Phase τ → Prop) (p : Phase τ) : Prop :=
  Wp (phases ι τ queSize).next (phases ι τ queSize).May job post p

theorem method_lock {k : Unit → Job ι τ α} {post : Except Empty α → Phase τ → Prop}
    (rest : Method queSize (k ()) post (.inside request none)) :
    Method queSize (.call (.mutex .lock) k) post (.outside request) := by
  refine ⟨⟨_,_,.lock⟩,fun _ p next => ?_⟩
  cases next
  exact rest

theorem method_wait {c : Condition} {k : Unit → Job ι τ α} {post : Except Empty α → Phase τ → Prop}
    (rest : Method queSize (k ()) post (.inside request none)) :
    Method queSize ((wait c).bind k) post (.inside request seen) := by
  refine ⟨⟨_,_,.sleep⟩,fun _ p next => ?_⟩
  cases next
  refine ⟨⟨_,_,.rise⟩,fun _ p next => ?_⟩
  cases next
  refine ⟨⟨_,_,.relock⟩,fun _ p next => ?_⟩
  cases next
  exact rest

theorem method_size {k : Nat → Job ι τ α} {post : Except Empty α → Phase τ → Prop}
    (rest : ∀ n, Method queSize (k n) post (.inside request (some n))) :
    Method queSize (.call .size k) post (.inside request seen) := by
  refine ⟨⟨(0 : Nat),_,.size⟩,fun n p next => ?_⟩
  cases next
  exact rest n

theorem method_closing {c : Condition} {reply : Reply τ} {k : Unit → Job ι τ α}
    {post : Except Empty α → Phase τ → Prop} (rest : Method queSize (k ()) post (.answered reply)) :
    Method queSize (.call (.mutex (.notify c)) fun _ => .call (.mutex .unlock) k) post (.closing reply) := by
  refine ⟨⟨_,_,.notify⟩,fun _ p next => ?_⟩
  cases next
  refine ⟨⟨_,_,.unlock⟩,fun _ p next => ?_⟩
  cases next
  exact rest

theorem method_push (task : ElemType τ) : Method (ι := ι) queSize (push queSize task)
    (fun out p => out = .ok () ∧ p = .answered .done) (.outside (.push task)) := by
  apply method_lock
  refine ⟨fun _ p => ∃ seen, p = .inside (.push task) seen,⟨none,rfl⟩,?_⟩
  rintro _ _ ⟨seen,rfl⟩
  apply method_size
  intro n
  change Method queSize (if queSize == n then _ else .ret (Sum.inr () : Unit ⊕ Unit)) _ _
  split_ifs with full
  · apply method_wait
    exact ⟨none,rfl⟩
  · have room : n ≠ queSize := fun same => full (beq_iff_eq.mpr same.symm)
    refine ⟨⟨_,_,.enqueue room⟩,fun _ p next => ?_⟩
    cases next
    apply method_closing
    exact ⟨rfl,rfl⟩

theorem method_pop : Method (ι := ι) queSize (pop (τ := τ))
    (fun out p => ∃ task, out = .ok task ∧ p = .answered (.popped task)) (.outside .pop) := by
  -- The test of the queue and the flag has let the call through, or the flag is down.
  have after {p : Phase τ} (through : p = .lowered ∨ ∃ n ≠ 0, p = .inside .pop (some n)) :
      Method (ι := ι) queSize (.call .readFlag fun b => if b then .call .front fun tmp => .call .dequeue
        fun _ => .call (.mutex (.notify .notFull)) fun _ => .call (.mutex .unlock) fun _ => .ret tmp
        else .call (.mutex .unlock) fun _ => .ret none)
      (fun out p => ∃ task, out = .ok task ∧ p = .answered (.popped task)) p := by
    have leave : Method (ι := ι) queSize (.call (.mutex .unlock) fun _ => .ret none)
        (fun out p => ∃ task, out = .ok task ∧ p = .answered (.popped task)) (.lowered : Phase τ) := by
      refine ⟨⟨_,_,.leave⟩,fun _ p next => ?_⟩
      cases next
      exact ⟨none,rfl,rfl⟩
    rcases through with rfl | ⟨n,occupied,rfl⟩
    · refine ⟨⟨false,_,.still⟩,fun b p next => ?_⟩
      cases next
      exact leave
    · refine ⟨⟨false,_,.lowered⟩,fun b p next => ?_⟩
      cases next with
      | empty => exact absurd rfl occupied
      | lowered => exact leave
      | chosen =>
        refine ⟨⟨(none : ElemType τ),_,.front⟩,fun task p next => ?_⟩
        cases next
        refine ⟨⟨_,_,.dequeue⟩,fun _ p next => ?_⟩
        cases next
        apply method_closing
        exact ⟨task,rfl,rfl⟩
  apply method_lock
  refine ⟨fun _ p => ∃ seen, p = .inside .pop seen,⟨none,rfl⟩,?_⟩
  rintro _ _ ⟨seen,rfl⟩
  apply method_size
  intro n
  cases n with
  | zero =>
    refine ⟨⟨false,_,.lowered⟩,fun b p next => ?_⟩
    cases next with
    | empty =>
      apply method_wait
      exact ⟨none,rfl⟩
    | lowered => exact after (.inl rfl)
    | chosen occupied => exact absurd rfl occupied
  | succ n => exact after (.inr ⟨n + 1,n.succ_ne_zero,rfl⟩)

theorem method_wakeup : Method (ι := ι) queSize wakeup
    (fun out p => out = .ok () ∧ p = .answered .done) (.outside (.wakeup : QueueCall τ)) := by
  refine ⟨⟨_,_,.clearFlag⟩,fun _ p next => ?_⟩
  cases next
  refine ⟨⟨_,_,.notifyAll⟩,fun _ p next => ?_⟩
  cases next
  exact ⟨rfl,rfl⟩

theorem method_ends (request : QueueCall τ) : Method (ι := ι) queSize (method queSize request)
    (phases ι τ queSize).Ends (.outside request) := by
  cases request with
  | push task =>
    apply wp_bind
    apply wp_mono _ (method_push task)
    rintro _ _ ⟨rfl,rfl⟩
    exact ⟨.done,rfl,rfl⟩
  | pop =>
    apply wp_bind
    apply wp_mono _ method_pop
    rintro _ _ ⟨task,rfl,rfl⟩
    exact ⟨.popped task,rfl,rfl⟩
  | wakeup =>
    apply wp_bind
    apply wp_mono _ method_wakeup
    rintro _ _ ⟨rfl,rfl⟩
    exact ⟨.done,rfl,rfl⟩

end methods

section related
variable {phases : ι → Option (Phase τ)} {a : Atomic ι (boundedQueue queSize τ)}

/-- A thread that is outside of a call, or without the mutex, changes what it is about to do. -/
theorem related_outside {phase : Option (Phase τ)} {stage : Stage (QueueCall τ) (Reply τ)}
    (related : Related queSize phases g a) (before : ∀ p ∈ phases i, ¬ p.Owns) (after : ∀ p ∈ phase, ¬ p.Owns)
    (knows : ∀ p ∈ phase, p.Knows g) (same : stage = phase.elim .idle fun p => p.stage g.que) :
    Related queSize (Function.update phases i phase) g {a with stages := Function.update a.stages i stage} := by
  refine ⟨fun j => ?_,fun j => ?_,related.bounded,related.flag,fun j p here owns => ?_,related.free⟩
  · by_cases own : j = i
    · subst own
      rw [Function.update_self]
      refine ⟨iff_of_false (fun owner => ?_) fun ⟨p,here,owns⟩ => after p here owns,knows⟩
      obtain ⟨p,here,owns⟩ := (related.agrees j).owner.mp owner
      exact before p here owns
    · simpa [own] using related.agrees j
  · by_cases own : j = i
    · subst own
      simpa using same
    · simpa [own] using related.stages j
  · by_cases own : j = i
    · subst own
      rw [Function.update_self] at here
      exact absurd owns (after p here)
    · exact related.held j p (by simpa [own] using here) owns

theorem related_act (related : Related queSize phases g a) (here : phases i = some p)
    (may : ∃ r p', Next ι queSize p c r p') (acts : Acts i g c r g') :
    ∃ p' a', Next ι queSize p c r p' ∧ History AtomicStep a [] a' ∧
      Related queSize (Function.update phases i (some p')) g' a' := by
  have agrees : Agrees i (some p) g := here ▸ related.agrees i
  have owner (owns : p.Owns) : g.mutex.owner = some i := agrees.owner.mpr ⟨p,rfl,owns⟩
  have knows := agrees.knows p rfl
  obtain ⟨p',next⟩ := next_of_acts may acts knows
  obtain ⟨q',after⟩ := advanced (q := a.object) next acts knows related.bounded related.flag
    (related.held i p here) related.free
  have others {j : ι} (other : j ≠ i) := others_kept next acts owner other
  have own := agrees_own next acts agrees
  have stage : a.stages i = p.stage g.que := by rw [related.stages,here]; rfl
  have moved : Related queSize (Function.update phases i (some p')) g'
      ⟨q',Function.update a.stages i (p'.stage g'.que)⟩ := by
    refine ⟨fun j => ?_,fun j => ?_,after.bounded,after.flag,fun j pj there owns => ?_,fun none => ?_⟩
    · by_cases same : j = i
      · subst same
        simpa using own
      · simpa [same] using agrees_other (related.agrees j) (others same).1 (others same).2.1 (others same).2.2
    · by_cases same : j = i
      · subst same
        simp
      · simp only [Function.update_of_ne same,related.stages]
        cases there : phases j with
        | none => rfl
        | some pj =>
          refine (stage_other fun owns => (others same).2.1 ?_).symm
          exact (related.agrees j).owner.mpr ⟨pj,there,owns⟩
    · by_cases same : j = i
      · subst same
        obtain rfl : p' = pj := by simpa using there
        exact after.held owns
      · have there : phases j = some pj := by simpa [same] using there
        have theirs := (related.agrees j).owner.mpr ⟨pj,there,owns⟩
        obtain ⟨object,que⟩ := after.unheld fun mine => same (Option.some.inj (theirs.symm.trans (owner mine)))
        rw [object,que]
        exact related.held j pj there owns
    · by_cases mine : p.Owns
      · refine after.released mine fun still => ?_
        rw [own.owner.mpr ⟨p',rfl,still⟩] at none
        cases none
      · obtain ⟨object,que⟩ := after.unheld mine
        rw [object,que]
        apply related.free
        by_contra taken
        obtain ⟨j,theirs⟩ := Option.ne_none_iff_exists'.mp taken
        have other : j ≠ i := by
          rintro rfl
          obtain ⟨_,same,owns⟩ := agrees.owner.mp theirs
          cases same
          exact mine owns
        rw [(others other).1.mp theirs] at none
        cases none
  rcases after.effect with ⟨same,kept⟩ | ⟨request,reply,called,effect,done⟩
  · refine ⟨p',a,next,.nil,?_⟩
    rw [same,kept,← stage,Function.update_eq_self] at moved
    exact moved
  · refine ⟨p',_,next,history_one (AtomicStep.effect (stage.trans called) effect),?_⟩
    rw [done] at moved
    exact moved

end related

theorem lawful (ι τ : Type) [DecidableEq ι] (queSize : Nat) : (phases ι τ queSize).Lawful where
  methods := method_ends
  begins phases g a i request related idle := by
    refine ⟨by rw [related.stages,idle]; rfl,?_⟩
    apply related_outside related (by simp [idle]) _ _ rfl <;> rintro _ ⟨⟩
    · exact id
    · trivial
  acts phases g a i p c r g' related here may acts := related_act related here may acts
  ends phases g a i p reply related here last := by
    obtain rfl := last
    refine ⟨by rw [related.stages,here]; rfl,?_⟩
    exact related_outside related (by simp [here,Phase.Owns]) nofun nofun rfl

/-- What any number of threads see of the queue, whatever they call and however they are scheduled, they
can see of a queue on which each call takes effect at once, between its beginning and its end. -/
theorem linearizable (queSize : Nat) {h : List (Visible ι (QueueCall τ) (Reply τ))}
    {s : Callers (signature ι τ) Empty ι (Reply τ) (Shared ι τ)}
    (run : History (CallersStep Acts (method queSize)) (.new _ _ _ _ (Shared.new ι τ)) h s) :
    ∃ a, History AtomicStep (.new ι (boundedQueue queSize τ)) h a ∧ s.shared.que.length ≤ queSize ∧
      (s.shared.mutex.owner = none → a.object = ⟨s.shared.que,s.shared.flag⟩) := by
  have start : Related queSize (fun _ => none) (Shared.new ι τ) (.new ι (boundedQueue queSize τ)) := by
    refine ⟨fun i => ⟨iff_of_false nofun (by simp),nofun⟩,fun i => rfl,Nat.zero_le _,rfl,nofun,fun _ => rfl⟩
  obtain ⟨a,phases,history,simulates⟩ := Linearization.history_atomic (lawful ι τ queSize) start run
  have related : Related queSize phases s.shared a := simulates.related
  refine ⟨a,history,related.bounded,fun free => ?_⟩
  have que := related.free free
  have flag := related.flag
  obtain ⟨⟨_,_⟩,_⟩ := a
  dsimp only at que flag
  rw [que,flag]

section sample

def sampleCallers : Script Bool Nat := ⟨[true,false],fun _ _ => none,fun _ => [],fun _ => 0⟩

/-- One thread waits in `pop` until the other has pushed. -/
def samplePushed : List (Callers.Scheduled Bool (QueueCall Nat)) :=
  .call true .pop :: List.replicate 5 (.act true) ++ .call false (.push (some 7)) ::
    List.replicate 6 (.act false) ++ List.replicate 9 (.act true) ++ [.ret false,.ret true]

theorem sample_linearizable : ∃ a, History AtomicStep (.new Bool (boundedQueue 1 Nat))
    [.called true .pop,.called false (.push (some 7)),.returned false .done,.returned true (.popped (some 7))] a := by
  have every : ∀ i, i ∈ sampleCallers.all := by decide
  have within (i : Bool) : Responder.Within (S := signature Bool Nat) (sampleCallers.answer i) (Acts i) :=
    fun g c r g' answered => Script.answer_acts every answered
  obtain ⟨s,played⟩ : ∃ s, (Callers.new _ _ _ _ (Shared.new Bool Nat)).play
      sampleCallers.answer (method 1) samplePushed = some ([.called true .pop,
        .called false (.push (some 7)),.returned false .done,.returned true (.popped (some 7))],s) := ⟨_,rfl⟩
  obtain ⟨a,history,_⟩ := linearizable 1 (Callers.play_history within played)
  exact ⟨a,history⟩

end sample

section server
variable {cfg : FileServer.Config} {s s' : FileServer.State}

theorem server_effect (step : FileServer.ServerStep cfg s s') (bounded : s.que.length ≤ cfg.queSize) :
    s'.que = s.que ∨ ∃ request reply, Effect cfg.queSize ⟨s.que.map some,true⟩ request reply ⟨s'.que.map some,true⟩ := by
  cases step with
  | client _ step => cases step <;> exact .inl rfl
  | loop _ step =>
    cases step with
    | @push task rest here notFull =>
      refine .inr ⟨.push (some task),.done,?_⟩
      have room : (s.que.map some).length < cfg.queSize := by
        rw [List.length_map]
        exact lt_of_le_of_ne bounded notFull
      simpa using Effect.push (q := ⟨s.que.map some,true⟩) room
    | epollWait | roundOver | accept | acceptFails | unknown | closed | onMessage | leave => exact .inl rfl
  | thread _ step =>
    cases step with
    | @pop i task rest thread idle first =>
      refine .inr ⟨.pop,.popped (some task),?_⟩
      exact Effect.pop (q := ⟨s.que.map some,true⟩) rfl (by simp [first])
    | process | finish | terminate | sigpipe => exact .inl rfl

/-- The server's runs take their queue through effects of the bounded queue alone. -/
theorem server_queue {store : Calls.Store}
    (run : Relation.ReflTransGen (FileServer.ServerStep cfg) (.start store) s) : s.que.length ≤ cfg.queSize ∧
      Relation.ReflTransGen (fun q q' => ∃ request reply, Effect cfg.queSize q request reply q') ⟨[],true⟩
        ⟨s.que.map some,true⟩ := by
  induction run with
  | refl => exact ⟨Nat.zero_le _,.refl⟩
  | tail _ step ih =>
    obtain ⟨bounded,effects⟩ := ih
    rcases server_effect step bounded with same | ⟨request,reply,effect⟩
    · rw [same]
      exact ⟨bounded,effects⟩
    · refine ⟨?_,effects.tail ⟨request,reply,effect⟩⟩
      simpa using effect_bounded effect (by simpa using bounded)

end server

end FilediskServer.TaskQueue
