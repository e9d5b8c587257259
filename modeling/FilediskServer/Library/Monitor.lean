import Mathlib.Data.Fintype.Card
import Mathlib.Logic.Function.Basic

/-! A mutex and the condition variables that go with it. A waiting thread gives the mutex up,
sleeps until it is signalled or wakes for no reason, and takes the mutex again. -/
namespace Interaction

inductive MonitorOp (κ : Type)
  | lock
  | unlock
  | sleep (c : κ)
  | rise (c : κ)
  | relock
  | notify (c : κ)
  | notifyAll (c : κ)
  deriving DecidableEq

/-- `risen` is a thread that woke unsignalled and wants the mutex. -/
inductive Waiting (κ : Type)
  | running
  | asleep (c : κ)
  | signalled (c : κ)
  | risen
  deriving DecidableEq

@[ext] structure Monitor (ι κ : Type) where
  owner : Option ι
  waiting : ι → Waiting κ

namespace Monitor
variable {ι κ : Type}

/-- What others do to a thread: its mutex stays with it, and its sleep ends with a signal. -/
structure Bystands (i : ι) (m m' : Monitor ι κ) : Prop where
  owner : m.owner = some i ↔ m'.owner = some i
  waiting : m'.waiting i = m.waiting i ∨
    ∃ c, m.waiting i = .asleep c ∧ m'.waiting i = .signalled c

variable {i j : ι} {m m' : Monitor ι κ} {o : MonitorOp κ}

theorem bystands_refl (i : ι) (m : Monitor ι κ) : Bystands i m m := ⟨Iff.rfl,.inl rfl⟩

theorem bystands_trans {m'' : Monitor ι κ} (first : Bystands i m m') (second : Bystands i m' m'') :
    Bystands i m m'' := by
  refine ⟨first.owner.trans second.owner,?_⟩
  rcases first.waiting with same | ⟨c,asleep,woken⟩
  · rw [← same]
    exact second.waiting
  · rcases second.waiting with same | ⟨d,again,_⟩
    · exact .inr ⟨c,asleep,same.trans woken⟩
    · rw [woken] at again
      cases again

theorem Bystands.running (bystands : Bystands i m m') (running : m.waiting i = .running) :
    m'.waiting i = .running := by
  rcases bystands.waiting with same | ⟨c,asleep,_⟩
  · exact same.trans running
  · rw [running] at asleep
    cases asleep

variable [DecidableEq κ]

section acts
variable [DecidableEq ι]

inductive Acts (i : ι) (m : Monitor ι κ) : MonitorOp κ → Monitor ι κ → Prop
  | lock (free : m.owner = none) : Acts i m .lock {m with owner := some i}
  | unlock : Acts i m .unlock {m with owner := none}
  | sleep {c : κ} : Acts i m (.sleep c) ⟨none,Function.update m.waiting i (.asleep c)⟩
  | called {c : κ} (signalled : m.waiting i = .signalled c) : Acts i m (.rise c) m
  | spurious {c : κ} (asleep : m.waiting i = .asleep c) :
      Acts i m (.rise c) {m with waiting := Function.update m.waiting i .risen}
  | relock (free : m.owner = none) :
      Acts i m .relock ⟨some i,Function.update m.waiting i .running⟩
  | notify {c : κ} {j : ι} (asleep : m.waiting j = .asleep c) :
      Acts i m (.notify c) {m with waiting := Function.update m.waiting j (.signalled c)}
  | unheard {c : κ} (nobody : ∀ j, m.waiting j ≠ .asleep c) : Acts i m (.notify c) m
  | notifyAll {c : κ} : Acts i m (.notifyAll c) {m with
      waiting := fun j => if m.waiting j = .asleep c then .signalled c else m.waiting j}

/-- One way for the threads `all` to go on: none wakes unsignalled, and `notify` finds the first
that sleeps. -/
def respond (all : List ι) (i : ι) (m : Monitor ι κ) : MonitorOp κ → Option (Monitor ι κ)
  | .lock => if m.owner = none then some {m with owner := some i} else none
  | .unlock => some {m with owner := none}
  | .sleep c => some ⟨none,Function.update m.waiting i (.asleep c)⟩
  | .rise c => if m.waiting i = .signalled c then some m else none
  | .relock => if m.owner = none then some ⟨some i,Function.update m.waiting i .running⟩ else none
  | .notify c =>
    match all.find? fun j => m.waiting j = .asleep c with
    | some j => some {m with waiting := Function.update m.waiting j (.signalled c)}
    | none => some m
  | .notifyAll c => some {m with
      waiting := fun j => if m.waiting j = .asleep c then .signalled c else m.waiting j}

theorem respond_acts {all : List ι} (every : ∀ j, j ∈ all) (answered : m.respond all i o = some m') :
    Acts i m o m' := by
  cases o with
  | lock =>
    obtain ⟨free,same⟩ := Option.ite_none_right_eq_some.mp answered
    cases same
    exact .lock free
  | unlock => cases answered; exact .unlock
  | sleep c => cases answered; exact .sleep
  | rise c =>
    obtain ⟨signalled,same⟩ := Option.ite_none_right_eq_some.mp answered
    cases same
    exact .called signalled
  | relock =>
    obtain ⟨free,same⟩ := Option.ite_none_right_eq_some.mp answered
    cases same
    exact .relock free
  | notify c =>
    simp only [respond] at answered
    split at answered
    next j found =>
      cases answered
      have asleep := List.find?_some found
      exact .notify (of_decide_eq_true asleep)
    next nobody =>
      cases answered
      exact .unheard fun j asleep => List.find?_eq_none.mp nobody j (every j) (decide_eq_true asleep)
  | notifyAll c => cases answered; exact .notifyAll

theorem acts_bystands (acts : Acts i m o m') (other : j ≠ i)
    (owns : o = .unlock ∨ (∃ c, o = .sleep c) → m.owner = some i) : Bystands j m m' := by
  have elsewhere {v : Waiting κ} : Function.update m.waiting i v j = m.waiting j :=
    Function.update_of_ne other ..
  have apart : some i ≠ some j := fun same => other (Option.some.inj same).symm
  cases acts with
  | lock free => exact ⟨by simp [free,apart],.inl rfl⟩
  | unlock => exact ⟨by simp [owns (.inl rfl),apart],.inl rfl⟩
  | sleep => exact ⟨by simp [owns (.inr ⟨_,rfl⟩),apart],.inl elsewhere⟩
  | called => exact ⟨Iff.rfl,.inl rfl⟩
  | spurious => exact ⟨Iff.rfl,.inl elsewhere⟩
  | relock free => exact ⟨by simp [free,apart],.inl elsewhere⟩
  | unheard => exact ⟨Iff.rfl,.inl rfl⟩
  | @notify c woken asleep =>
    refine ⟨Iff.rfl,?_⟩
    by_cases same : j = woken
    · subst same
      exact .inr ⟨c,asleep,Function.update_self ..⟩
    · exact .inl (Function.update_of_ne same ..)
  | @notifyAll c =>
    refine ⟨Iff.rfl,?_⟩
    by_cases asleep : m.waiting j = .asleep c
    · exact .inr ⟨c,asleep,if_pos asleep⟩
    · exact .inl (if_neg asleep)

theorem asleep_before {c : κ} (acts : Acts i m o m') (asleep : m'.waiting j = .asleep c) :
    (m.waiting j = .asleep c ∧ o ≠ .notifyAll c) ∨ (j = i ∧ o = .sleep c) := by
  have elsewhere {k : ι} {v : Waiting κ} (differs : v ≠ .asleep c)
      (asleep : Function.update m.waiting k v j = .asleep c) : m.waiting j = .asleep c := by
    by_cases same : j = k
    · subst same
      rw [Function.update_self] at asleep
      exact absurd asleep differs
    · rwa [Function.update_of_ne same] at asleep
  cases acts with
  | lock | unlock | called | unheard => exact .inl ⟨asleep,by simp⟩
  | spurious | relock | notify => exact .inl ⟨elsewhere (by simp) asleep,by simp⟩
  | @sleep c' =>
    by_cases same : j = i
    · subst same
      simp only [Function.update_self,Waiting.asleep.injEq] at asleep
      exact .inr ⟨rfl,by rw [asleep]⟩
    · exact .inl ⟨by simpa [Function.update_of_ne same] using asleep,by simp⟩
  | @notifyAll c' =>
    by_cases before : m.waiting j = .asleep c'
    · simp [before] at asleep
    · simp only [before,if_false] at asleep
      exact .inl ⟨asleep,fun same => before (by cases same; exact asleep)⟩

theorem waits_before {c : κ} (acts : Acts i m o m')
    (waits : m'.waiting j = .asleep c ∨ m'.waiting j = .signalled c) :
    (m.waiting j = .asleep c ∨ m.waiting j = .signalled c) ∨ (j = i ∧ o = .sleep c) := by
  rcases waits with asleep | signalled
  · exact (asleep_before acts asleep).imp (fun before => .inl before.1) id
  · have elsewhere {k : ι} {v : Waiting κ} (differs : v ≠ .signalled c)
        (signalled : Function.update m.waiting k v j = .signalled c) :
        m.waiting j = .signalled c := by
      by_cases same : j = k
      · subst same
        rw [Function.update_self] at signalled
        exact absurd signalled differs
      · rwa [Function.update_of_ne same] at signalled
    cases acts with
    | lock | unlock | called | unheard => exact .inl (.inr signalled)
    | sleep | spurious | relock => exact .inl (.inr (elsewhere (by simp) signalled))
    | @notify c' woken asleep =>
      by_cases same : j = woken
      · subst same
        simp only [Function.update_self,Waiting.signalled.injEq] at signalled
        exact .inl (.inl (by rw [asleep,signalled]))
      · exact .inl (.inr (by simpa [Function.update_of_ne same] using signalled))
    | @notifyAll c' =>
      by_cases before : m.waiting j = .asleep c'
      · simp only [before,if_true,Waiting.signalled.injEq] at signalled
        exact .inl (.inl (by rw [before,signalled]))
      · simp only [before,if_false] at signalled
        exact .inl (.inr signalled)

theorem owner_relock (acts : Acts i m .relock m') : m.owner = none ∧ m'.owner = some i := by
  cases acts with
  | relock free => exact ⟨free,rfl⟩

theorem owner_notify {c : κ} (acts : Acts i m (.notify c) m') : m'.owner = m.owner := by
  cases acts <;> rfl

/-- The thread that has the mutex does not wait. -/
def Awake (m : Monitor ι κ) : Prop := ∀ i, m.owner = some i → m.waiting i = .running

theorem awake_kept (acts : Acts i m o m') (awake : Awake m)
    (running : o = .lock → m.waiting i = .running) : Awake m' := by
  intro j own
  have apart {k : ι} {c : κ} (asleep : m.waiting k = .asleep c) (own : m.owner = some j) :
      j ≠ k := by
    intro same
    have runs := awake j own
    rw [same,asleep] at runs
    cases runs
  cases acts with
  | lock =>
    cases own
    exact running rfl
  | unlock | sleep => cases own
  | called | unheard => exact awake j own
  | spurious asleep | notify asleep =>
    exact (Function.update_of_ne (apart asleep own) ..).trans (awake j own)
  | relock =>
    cases own
    exact Function.update_self ..
  | @notifyAll c =>
    have runs := awake j own
    simp [runs]

end acts

variable [Fintype ι]

/-- The threads signalled on `c` that have not yet got the mutex back. -/
def signalled (m : Monitor ι κ) (c : κ) : Finset ι :=
  Finset.univ.filter fun i => m.waiting i = .signalled c

/-- While somebody sleeps on `c`, all but `k` of the `supply` are matched by signals. -/
def Owed (m : Monitor ι κ) (c : κ) (supply k : Nat) : Prop :=
  (∃ i, m.waiting i = .asleep c) → supply ≤ (m.signalled c).card + k

variable {c : κ} {supply supply' k k' : Nat}

@[simp] theorem mem_signalled : i ∈ m.signalled c ↔ m.waiting i = .signalled c := by
  simp [signalled]

theorem Owed.shift (owed : Owed m c supply k) (less : supply' + k ≤ supply + k') :
    Owed m c supply' k' := by
  intro asleep
  have bound := owed asleep
  omega

theorem Owed.of_signals (owed : Owed m c supply k)
    (asleep : ∀ j, m'.waiting j = .asleep c → m.waiting j = .asleep c)
    (signals : ∀ j, m.waiting j = .signalled c → m'.waiting j = .signalled c) :
    Owed m' c supply k := by
  intro sleeps
  obtain ⟨j,sleeping⟩ := sleeps
  have bound := owed ⟨j,asleep j sleeping⟩
  have more : (m.signalled c).card ≤ (m'.signalled c).card := by
    apply Finset.card_le_card
    intro j inside
    exact mem_signalled.mpr (signals j (mem_signalled.mp inside))
  omega

section owed
variable [DecidableEq ι]

/-- Only a thread that goes to sleep and one that takes up its signal can leave more owed. -/
theorem owed_kept (acts : Acts i m o m') (owed : Owed m c supply k)
    (relocks : o = .relock → m.waiting i ≠ .signalled c)
    (sleeps : ∀ c', o = .sleep c' → c' ≠ c ∧ m.waiting i = .running) : Owed m' c supply k := by
  have moved {v : Waiting κ} (woke : v ≠ .asleep c) (unheard : m.waiting i ≠ .signalled c) :
      Owed ⟨m'.owner,Function.update m.waiting i v⟩ c supply k := by
    apply owed.of_signals <;> intro j inside
    · by_cases same : j = i
      · subst same
        simp only [Function.update_self] at inside
        exact absurd inside woke
      · simpa [Function.update_of_ne same] using inside
    · have other : j ≠ i := fun same => unheard (same ▸ inside)
      simpa [Function.update_of_ne other] using inside
  cases acts with
  | lock | unlock | called | unheard => exact owed
  | @sleep c' =>
    obtain ⟨apart,running⟩ := sleeps c' rfl
    exact moved (by simpa using apart) (by simp [running])
  | spurious asleep => exact moved (by simp) (by simp [asleep])
  | relock => exact moved (by simp) (relocks rfl)
  | @notify c' woken asleep =>
    apply owed.of_signals <;> intro j inside
    · by_cases same : j = woken
      · subst same
        simp at inside
      · simpa [Function.update_of_ne same] using inside
    · have other : j ≠ woken := by
        intro same
        rw [same,asleep] at inside
        cases inside
      simpa [Function.update_of_ne other] using inside
  | @notifyAll c' =>
    apply owed.of_signals <;> intro j inside
    · by_cases asleep : m.waiting j = .asleep c'
      · simp [asleep] at inside
      · simpa [asleep] using inside
    · simp [inside]

theorem owed_relock (acts : Acts i m .relock m') (owed : Owed m c supply k) :
    Owed m' c supply (k + 1) := by
  cases acts with
  | relock =>
    intro sleeps
    obtain ⟨j,sleeping⟩ := sleeps
    have other : j ≠ i := by
      intro same
      subst same
      simp at sleeping
    have bound := owed ⟨j,by simpa [Function.update_of_ne other] using sleeping⟩
    have less : (m.signalled c).card ≤
        (signalled ⟨some i,Function.update m.waiting i .running⟩ c).card + 1 := by
      rw [← Nat.sub_le_iff_le_add]
      apply (Finset.pred_card_le_card_erase (a := i)).trans
      apply Finset.card_le_card
      intro j inside
      obtain ⟨other,inside⟩ := Finset.mem_erase.mp inside
      simpa [Function.update_of_ne other] using inside
    omega

theorem owed_notify (acts : Acts i m (.notify c) m') (owed : Owed m c supply (k + 1)) :
    Owed m' c supply k := by
  cases acts with
  | unheard nobody => exact fun ⟨j,asleep⟩ => absurd asleep (nobody j)
  | @notify _ woken asleep =>
    intro _
    have bound := owed ⟨woken,asleep⟩
    have fresh : woken ∉ m.signalled c := by simp [asleep]
    have more : insert woken (m.signalled c) ⊆
        signalled ⟨m.owner,Function.update m.waiting woken (.signalled c)⟩ c := by
      intro j inside
      by_cases same : j = woken
      · subst same
        simp
      · simpa [same,Function.update_of_ne same] using inside
    have larger := Finset.card_le_card more
    rw [Finset.card_insert_of_notMem fresh] at larger
    omega

end owed

end Monitor

end Interaction
