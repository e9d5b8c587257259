import FilediskServer.Library.Wp
import Mathlib.Data.List.Chain

/-! Runs of a transition system as the lists of their states, and programs that take turns
over a shared state. -/
namespace Interaction

section runs
universe u
variable {σ : Type u} {step guard : σ → σ → Prop} {P : σ → Prop} {first : σ} {run : List σ}

/-- What each step keeps whose guard was met holds all along a run that meets its guards. -/
theorem always_of_guarded (steps : (first :: run).IsChain step)
    (guarded : (first :: run).IsChain guard) (initially : P first)
    (kept : ∀ s s', P s → step s s' → guard s s' → P s') :
    ∀ s ∈ first :: run, P s := by
  induction run generalizing first with
  | nil => simpa using initially
  | cons next run ih =>
    have start := List.isChain_cons_cons.mp steps
    have met := List.isChain_cons_cons.mp guarded
    have after := ih start.2 met.2 (kept _ _ initially start.1 met.1)
    exact List.forall_mem_cons.mpr ⟨initially,after⟩

theorem always_of_kept (steps : (first :: run).IsChain step) (initially : P first)
    (kept : ∀ s s', P s → step s s' → P s') : ∀ s ∈ first :: run, P s :=
  always_of_guarded steps steps initially fun s s' held stepped _ => kept s s' held stepped

theorem chain_both (steps : (first :: run).IsChain step) (guarded : (first :: run).IsChain guard) :
    (first :: run).IsChain fun s s' => step s s' ∧ guard s s' := by
  induction run generalizing first with
  | nil => exact .singleton first
  | cons next run ih =>
    have start := List.isChain_cons_cons.mp steps
    have met := List.isChain_cons_cons.mp guarded
    exact List.isChain_cons_cons.mpr ⟨⟨start.1,met.1⟩,ih start.2 met.2⟩

/-- Where each step brings about what is wanted just when its guard is met, so do runs. -/
theorem always_iff_guarded {K : σ → Prop} (steps : (first :: run).IsChain step) (start : K first)
    (initially : P first) (each : ∀ s s', K s → P s → step s s' →
      (guard s s' ↔ P s') ∧ (guard s s' → K s')) :
    (∀ s ∈ first :: run, P s) ↔ (first :: run).IsChain guard := by
  induction run generalizing first with
  | nil => simpa using initially
  | cons next run ih =>
    obtain ⟨stepped,rest⟩ := List.isChain_cons_cons.mp steps
    obtain ⟨when_,keeps⟩ := each first next start initially stepped
    rw [List.isChain_cons_cons,List.forall_mem_cons]
    constructor
    · intro all
      have met := when_.mpr (all.2 next List.mem_cons_self)
      exact ⟨met,(ih rest (keeps met) (when_.mp met)).mp all.2⟩
    · intro met
      exact ⟨initially,(ih rest (keeps met.1) (when_.mp met.1)).mpr met.2⟩

/-- The states that a list of acts goes through, where each can be done. -/
def trail {α : Type} (act : α → σ → Option σ) : List α → σ → Option (List σ)
  | [], _ => some []
  | a :: rest, s => (act a s).bind fun s' => (trail act rest s').map (s' :: ·)

theorem trail_chain {α : Type} {act : α → σ → Option σ} {acts : List α}
    (sound : ∀ a s s', act a s = some s' → step s s') (went : trail act acts first = some run) :
    (first :: run).IsChain step := by
  induction acts generalizing first run with
  | nil => cases went; exact .singleton first
  | cons a rest ih =>
    obtain ⟨next,acted,after⟩ := Option.bind_eq_some_iff.mp went
    obtain ⟨states,later,rfl⟩ := Option.map_eq_some_iff.mp after
    exact List.isChain_cons_cons.mpr ⟨sound a first next acted,ih later⟩

theorem exists_run {last : σ} (reached : Relation.ReflTransGen step first last) :
    ∃ run, (first :: run).IsChain step ∧ last ∈ first :: run := by
  obtain ⟨run,steps,ends⟩ := List.exists_isChain_cons_of_relationReflTransGen reached
  exact ⟨run,steps,ends ▸ List.getLast_mem _⟩

end runs

section turns
variable {S : Signature} {ε α ι L G : Type} [DecidableEq ι]

/-- Programs over a shared state: what is left of each, with a state of its own. -/
@[ext] structure Pool (S : Signature) (ε α ι L G : Type) where
  threads : ι → Prog S ε α × L
  shared : G

/-- One thread makes a step. An exception has ended them all. -/
inductive Turn (H : ι → Handler S (L × G)) (i : ι) (s : Pool S ε α ι L G)
    (event : Option (Event S)) : Pool S ε α ι L G → Prop
  | mk {p : Prog S ε α} {l : L} {g : G} (up : ∀ j e, (s.threads j).1 ≠ .throw e)
      (step : Step (H i) (s.threads i).1 ((s.threads i).2,s.shared) event p (l,g)) :
      Turn H i s event ⟨Function.update s.threads i (p,l),g⟩

/-- What a thread can count on: between its calls the others may do anything to the shared
state. -/
def Alone (H : Handler S (L × G)) : Handler S L := fun l o r l' => ∃ g g', H (l,g) o r (l',g')

theorem step_alone {H : Handler S (L × G)} {p p' : Prog S ε α} {w w' : L × G}
    {event : Option (Event S)} (step : Step H p w event p' w') :
    Step (Alone H) p w.1 event p' w'.1 := by
  cases step with
  | call answered => exact .call ⟨_,_,answered⟩
  | loop => exact .loop

variable {H : ι → Handler S (L × G)} {i : ι} {s s' : Pool S ε α ι L G} {event : Option (Event S)}

theorem turn_other (turn : Turn H i s event s') {j : ι} (other : j ≠ i) :
    s'.threads j = s.threads j := by
  cases turn with
  | mk up step => exact Function.update_of_ne other ..

theorem turn_wp (may : ι → L → S.Op → Prop) (post : ι → Except ε α → L → Prop)
    (turn : Turn H i s event s')
    (holds : ∀ j, Wp (Alone (H j)) (may j) (s.threads j).1 (post j) (s.threads j).2) :
    (∀ e ∈ event, may i (s.threads i).2 e.1) ∧
      ∀ j, Wp (Alone (H j)) (may j) (s'.threads j).1 (post j) (s'.threads j).2 := by
  cases turn with
  | @mk p l g up step =>
    have own := wp_step (step_alone step) (holds i)
    refine ⟨own.1,fun j => ?_⟩
    by_cases same : j = i
    · subst same
      simpa using own.2
    · simpa [Function.update_of_ne same] using holds j

theorem up_update {p : Prog S ε α} {l : L} (up : ∀ j e, (s.threads j).1 ≠ .throw e)
    (free : ∀ e, p ≠ .throw e) (j : ι) (e : ε) : (Function.update s.threads i (p,l) j).1 ≠ .throw e := by
  by_cases same : j = i
  · subst same
    rw [Function.update_self]
    exact free e
  · rw [Function.update_of_ne same]
    exact up j e

/-- A schedule as a function, for environments that are. -/
def Pool.play (f : ι → Responder S (L × G)) : List ι → Pool S ε α ι L G → Option (Pool S ε α ι L G)
  | [], s => some s
  | i :: rest, s =>
    match (f i).step (s.threads i).1 ((s.threads i).2,s.shared) with
    | some (.throw _,_) => none
    | some (p,(l,g)) => Pool.play f rest ⟨Function.update s.threads i (p,l),g⟩
    | none => none

theorem play_turns {f : ι → Responder S (L × G)} {B : ι → Prop} (sound : G → Prop)
    (within : ∀ i w o r w', sound w.2 → f i w o = some (r,w') → H i w o r w' ∧ sound w'.2)
    {schedule : List ι} (only : ∀ i ∈ schedule, B i) (up : ∀ j e, (s.threads j).1 ≠ .throw e)
    (start : sound s.shared) (played : s.play f schedule = some s') :
    Relation.ReflTransGen (fun s s' => ∃ i event, B i ∧ Turn H i s event s') s s' := by
  induction schedule generalizing s with
  | nil => cases played; exact .refl
  | cons i rest ih =>
    obtain ⟨first,only⟩ := List.forall_mem_cons.mp only
    unfold Pool.play at played
    split at played
    next => cases played
    next p l g free stepped =>
      obtain ⟨⟨event,step⟩,kept⟩ := Responder.step_sound_at (fun w => sound w.2) start
        (fun o r w' => within i _ o r w' start) stepped
      exact .head ⟨i,event,first,.mk up step⟩ (ih only (up_update up free) kept played)
    next => cases played

theorem play_sound {f : ι → Responder S (L × G)} (sound : G → Prop)
    (within : ∀ i w o r w', sound w.2 → f i w o = some (r,w') → H i w o r w' ∧ sound w'.2)
    {schedule : List ι} (up : ∀ j e, (s.threads j).1 ≠ .throw e) (start : sound s.shared)
    (played : s.play f schedule = some s') :
    Relation.ReflTransGen (fun s s' => ∃ i event, Turn H i s event s') s s' :=
  (play_turns (B := fun _ => True) sound within (fun _ _ => trivial) up start played).lift id
    fun _ _ ⟨i,event,_,turn⟩ => ⟨i,event,turn⟩

/-- The states that a schedule goes through. -/
def Pool.trail (f : ι → Responder S (L × G)) :
    List ι → Pool S ε α ι L G → Option (List (Pool S ε α ι L G))
  | [], _ => some []
  | i :: rest, s =>
    match (f i).step (s.threads i).1 ((s.threads i).2,s.shared) with
    | some (.throw _,_) => none
    | some (p,(l,g)) =>
      (Pool.trail f rest ⟨Function.update s.threads i (p,l),g⟩).map
        (⟨Function.update s.threads i (p,l),g⟩ :: ·)
    | none => none

theorem trail_sound {f : ι → Responder S (L × G)} (within : ∀ i, (f i).Within (H i))
    {schedule : List ι} {run : List (Pool S ε α ι L G)} (up : ∀ j e, (s.threads j).1 ≠ .throw e)
    (trail : s.trail f schedule = some run) :
    (s :: run).IsChain fun s s' => ∃ i event, Turn H i s event s' := by
  induction schedule generalizing s run with
  | nil => cases trail; exact List.isChain_singleton s
  | cons i rest ih =>
    unfold Pool.trail at trail
    split at trail
    next => cases trail
    next p l g free stepped =>
      obtain ⟨run,later,same⟩ := Option.map_eq_some_iff.mp trail
      subst same
      obtain ⟨event,step⟩ := Responder.step_sound (within i) stepped
      exact List.isChain_cons_cons.mpr ⟨⟨i,event,.mk up step⟩,ih (up_update up free) later⟩
    next => cases trail

theorem play_other {f : ι → Responder S (L × G)} {schedule : List ι} {j : ι} (idle : j ∉ schedule)
    (played : s.play f schedule = some s') : s'.threads j = s.threads j := by
  induction schedule generalizing s with
  | nil => cases played; rfl
  | cons i rest ih =>
    obtain ⟨other,idle⟩ := not_or.mp (mt List.mem_cons.mpr idle)
    unfold Pool.play at played
    split at played
    next => cases played
    next => exact (ih idle played).trans (Function.update_of_ne other ..)
    next => cases played

end turns

end Interaction
