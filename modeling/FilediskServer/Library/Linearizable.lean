import FilediskServer.Library.Wp
import Mathlib.Logic.Function.Basic

/-! Objects whose operations take effect at once, programs that implement them under any
interleaving, and a rule by which the callers of the programs cannot tell the two apart. -/
namespace Interaction

/-- An object by what an operation may answer and what it leaves. -/
structure AtomicObject (Op Res : Type) where
  State : Type
  start : State
  Effect : State → Op → Res → State → Prop

/-- What the callers of an object see. -/
inductive Visible (ι Op Res : Type)
  | called (i : ι) (o : Op)
  | returned (i : ι) (r : Res)
  deriving DecidableEq

/-- A caller between its calls, before the effect of one, and after it. -/
inductive Stage (Op Res : Type)
  | idle
  | called (o : Op)
  | done (r : Res)

inductive History {σ : Type*} {Λ : Type} (step : σ → Option Λ → σ → Prop) (s : σ) : List Λ → σ → Prop
  | nil : History step s [] s
  | snoc {h : List Λ} {s₁ s₂ : σ} {visible : Option Λ} (before : History step s h s₁)
      (next : step s₁ visible s₂) : History step s (h ++ visible.toList) s₂

section histories
variable {σ τ : Type*} {Λ : Type} {step : σ → Option Λ → σ → Prop} {step' : τ → Option Λ → τ → Prop}
  {s s' : σ} {t : τ} {h : List Λ}

theorem history_one {visible : Option Λ} (next : step s visible s') : History step s visible.toList s' :=
  .snoc .nil next

theorem history_trans {s'' : σ} {h' : List Λ} (first : History step s h s') (second : History step s' h' s'') :
    History step s (h ++ h') s'' := by
  induction second with
  | nil => simpa using first
  | snoc _ next ih =>
    rw [← List.append_assoc]
    exact .snoc ih next

/-- What one step of a system is matched by is seen of all its runs. -/
theorem history_simulated {R : σ → τ → Prop}
    (matched : ∀ s visible s' t, R s t → step s visible s' →
      ∃ t', History step' t visible.toList t' ∧ R s' t')
    (related : R s t) (run : History step s h s') : ∃ t', History step' t h t' ∧ R s' t' := by
  induction run with
  | nil => exact ⟨t,.nil,related⟩
  | snoc _ next ih =>
    obtain ⟨t₁,before,related⟩ := ih
    obtain ⟨t',after,related⟩ := matched _ _ _ t₁ related next
    exact ⟨t',history_trans before after,related⟩

end histories

variable {ι Op Res : Type} [DecidableEq ι]

/-- Any number of callers around an object. -/
structure Atomic (ι : Type) {Op Res : Type} (O : AtomicObject Op Res) where
  object : O.State
  stages : ι → Stage Op Res

def Atomic.new (ι : Type) (O : AtomicObject Op Res) : Atomic ι O := ⟨O.start,fun _ => .idle⟩

/-- The effect of a call is one step between its beginning and its end. -/
inductive AtomicStep {O : AtomicObject Op Res} (a : Atomic ι O) :
    Option (Visible ι Op Res) → Atomic ι O → Prop
  | call {i : ι} {o : Op} (idle : a.stages i = .idle) :
      AtomicStep a (some (.called i o)) {a with stages := Function.update a.stages i (.called o)}
  | effect {i : ι} {o : Op} {r : Res} {q : O.State} (called : a.stages i = .called o)
      (effect : O.Effect a.object o r q) :
      AtomicStep a none ⟨q,Function.update a.stages i (.done r)⟩
  | ret {i : ι} {r : Res} (done : a.stages i = .done r) :
      AtomicStep a (some (.returned i r)) {a with stages := Function.update a.stages i .idle}

variable {S : Signature} {ε G : Type}

/-- Any number of callers of the methods of an implementation, over the state these share. -/
structure Callers (S : Signature) (ε ι Res G : Type) where
  shared : G
  calls : ι → Option (Prog S ε Res)

def Callers.new (S : Signature) (ε ι Res : Type) {G : Type} (g : G) : Callers S ε ι Res G := ⟨g,fun _ => none⟩

inductive CallersStep (H : ι → Handler S G) (method : Op → Prog S ε Res) (s : Callers S ε ι Res G) :
    Option (Visible ι Op Res) → Callers S ε ι Res G → Prop
  | call {i : ι} {o : Op} (idle : s.calls i = none) : CallersStep H method s (some (.called i o))
      {s with calls := Function.update s.calls i (some (method o))}
  | act {i : ι} {p p' : Prog S ε Res} {event : Option (Event S)} {g : G} (running : s.calls i = some p)
      (step : Step (H i) p s.shared event p' g) : CallersStep H method s none
      ⟨g,Function.update s.calls i (some p')⟩
  | ret {i : ι} {r : Res} (ended : s.calls i = some (.ret r)) : CallersStep H method s (some (.returned i r))
      {s with calls := Function.update s.calls i none}

namespace Callers

/-- What a schedule lets a caller do next. -/
inductive Scheduled (ι Op : Type)
  | call (i : ι) (o : Op)
  | act (i : ι)
  | ret (i : ι)

def turn (f : ι → Responder S G) (method : Op → Prog S ε Res) (s : Callers S ε ι Res G) :
    Scheduled ι Op → Option (Option (Visible ι Op Res) × Callers S ε ι Res G)
  | .call i o =>
    match s.calls i with
    | none => some (some (.called i o),{s with calls := Function.update s.calls i (some (method o))})
    | some _ => none
  | .act i =>
    match s.calls i with
    | some p => ((f i).step p s.shared).map fun after => (none,⟨after.2,Function.update s.calls i (some after.1)⟩)
    | none => none
  | .ret i =>
    match s.calls i with
    | some (.ret r) => some (some (.returned i r),{s with calls := Function.update s.calls i none})
    | _ => none

def play (f : ι → Responder S G) (method : Op → Prog S ε Res) :
    List (Scheduled ι Op) → Callers S ε ι Res G → Option (List (Visible ι Op Res) × Callers S ε ι Res G)
  | [], s => some ([],s)
  | first :: rest, s => (s.turn f method first).bind fun after =>
      (play f method rest after.2).map fun last => (after.1.toList ++ last.1,last.2)

variable {H : ι → Handler S G} {f : ι → Responder S G} {method : Op → Prog S ε Res} {s s' : Callers S ε ι Res G}

theorem turn_step (within : ∀ i, (f i).Within (H i)) {first : Scheduled ι Op} {visible : Option (Visible ι Op Res)}
    (turned : s.turn f method first = some (visible,s')) : CallersStep H method s visible s' := by
  cases first with
  | call i o =>
    dsimp only [turn] at turned
    split at turned
    next idle => cases turned; exact .call idle
    next => cases turned
  | act i =>
    dsimp only [turn] at turned
    split at turned
    next running =>
      obtain ⟨after,stepped,same⟩ := Option.map_eq_some_iff.mp turned
      cases same
      obtain ⟨event,step⟩ := Responder.step_sound (within i) stepped
      exact .act running step
    next => cases turned
  | ret i =>
    dsimp only [turn] at turned
    split at turned
    next ended => cases turned; exact .ret ended
    next => cases turned

theorem play_history (within : ∀ i, (f i).Within (H i)) {schedule : List (Scheduled ι Op)}
    {h : List (Visible ι Op Res)} (played : s.play f method schedule = some (h,s')) :
    History (CallersStep H method) s h s' := by
  induction schedule generalizing s h with
  | nil => cases played; exact .nil
  | cons first rest ih =>
    obtain ⟨⟨visible,s₁⟩,turned,later⟩ := Option.bind_eq_some_iff.mp played
    obtain ⟨⟨h',last⟩,after,same⟩ := Option.map_eq_some_iff.mp later
    cases same
    exact history_trans (history_one (turn_step within turned)) (ih after)

end Callers

/-- How far a method is, by the answers it got; and how the phases of all callers relate what they
share to the object. -/
structure Linearization (H : ι → Handler S G) (method : Op → Prog S ε Res) (O : AtomicObject Op Res)
    (Phase : Type) where
  first : Op → Phase
  next : Handler S Phase
  last : Phase → Res → Prop
  related : (ι → Option Phase) → G → Atomic ι O → Prop

namespace Linearization
variable {H : ι → Handler S G} {method : Op → Prog S ε Res} {O : AtomicObject Op Res} {Phase : Type}

/-- The calls that have a place in a phase. -/
def May (L : Linearization H method O Phase) (p : Phase) (c : S.Op) : Prop := ∃ r p', L.next p c r p'

def Ends (L : Linearization H method O Phase) (out : Except ε Res) (p : Phase) : Prop :=
  ∃ r, out = .ok r ∧ L.last p r

structure Lawful (L : Linearization H method O Phase) : Prop where
  methods : ∀ o, Wp L.next L.May (method o) L.Ends (L.first o)
  begins : ∀ phases g a i o, L.related phases g a → phases i = none → a.stages i = .idle ∧
    L.related (Function.update phases i (some (L.first o))) g
      {a with stages := Function.update a.stages i (.called o)}
  acts : ∀ phases g a i p c r g', L.related phases g a → phases i = some p → L.May p c → H i g c r g' →
    ∃ p' a', L.next p c r p' ∧ History AtomicStep a [] a' ∧ L.related (Function.update phases i (some p')) g' a'
  ends : ∀ phases g a i p r, L.related phases g a → phases i = some p → L.last p r → a.stages i = .done r ∧
    L.related (Function.update phases i none) g {a with stages := Function.update a.stages i .idle}

/-- A call is in a phase from which its program ends as it should. -/
def Follows (L : Linearization H method O Phase) : Option (Prog S ε Res) → Option Phase → Prop
  | none, none => True
  | some p, some phase => Wp L.next L.May p L.Ends phase
  | _, _ => False

structure Simulates (L : Linearization H method O Phase) (s : Callers S ε ι Res G) (a : Atomic ι O)
    (phases : ι → Option Phase) : Prop where
  calls : ∀ i, L.Follows (s.calls i) (phases i)
  related : L.related phases s.shared a

variable {L : Linearization H method O Phase} {s s' : Callers S ε ι Res G} {a : Atomic ι O}
  {phases : ι → Option Phase} {i : ι}

theorem follows_update {job : Option (Prog S ε Res)} {phase : Option Phase} (follows : L.Follows job phase)
    (others : ∀ j, L.Follows (s.calls j) (phases j)) (j : ι) :
    L.Follows (Function.update s.calls i job j) (Function.update phases i phase j) := by
  by_cases same : j = i
  · subst same
    simpa using follows
  · simpa [same] using others j

omit [DecidableEq ι] in
theorem phase_of_running {p : Prog S ε Res} (simulates : L.Simulates s a phases)
    (running : s.calls i = some p) : ∃ phase, phases i = some phase ∧ Wp L.next L.May p L.Ends phase := by
  have follows := simulates.calls i
  rw [running] at follows
  cases here : phases i with
  | none => rw [here] at follows; exact follows.elim
  | some phase => rw [here] at follows; exact ⟨phase,rfl,follows⟩

theorem simulates_step (lawful : L.Lawful) {visible : Option (Visible ι Op Res)}
    (simulates : L.Simulates s a phases) (step : CallersStep H method s visible s') :
    ∃ a' phases', History AtomicStep a visible.toList a' ∧ L.Simulates s' a' phases' := by
  cases step with
  | @call i o idle =>
    have free : phases i = none := by
      have follows := simulates.calls i
      rw [idle] at follows
      cases here : phases i with
      | none => rfl
      | some phase => rw [here] at follows; exact follows.elim
    obtain ⟨stage,related⟩ := lawful.begins phases s.shared a i o simulates.related free
    refine ⟨_,_,history_one (AtomicStep.call stage),follows_update ?_ simulates.calls,related⟩
    exact lawful.methods o
  | @act i p p' event g running step =>
    obtain ⟨phase,here,holds⟩ := phase_of_running simulates running
    cases step with
    | loop =>
      refine ⟨a,Function.update phases i (some phase),.nil,follows_update ?_ simulates.calls,?_⟩
      · exact (wp_step (Step.loop (H := L.next)) holds).2
      · rw [← here,Function.update_eq_self]
        exact simulates.related
    | call answered =>
      obtain ⟨phase',a',next,steps,related⟩ :=
        lawful.acts phases s.shared a i phase _ _ g simulates.related here holds.1 answered
      refine ⟨a',_,steps,follows_update ?_ simulates.calls,related⟩
      exact holds.2 _ _ next
  | @ret i r ended =>
    obtain ⟨phase,here,r',same,last⟩ := phase_of_running simulates ended
    cases same
    obtain ⟨stage,related⟩ := lawful.ends phases s.shared a i phase r simulates.related here last
    refine ⟨_,_,history_one (AtomicStep.ret stage),follows_update ?_ simulates.calls,related⟩
    trivial

/-- What is seen of the implementation can be seen of the object. -/
theorem history_atomic (lawful : L.Lawful) {g : G} {h : List (Visible ι Op Res)}
    (start : L.related (fun _ => none) g (.new ι O)) (run : History (CallersStep H method) (.new S ε ι Res g) h s) :
    ∃ a phases, History AtomicStep (.new ι O) h a ∧ L.Simulates s a phases := by
  have begun : ∃ phases, L.Simulates (.new S ε ι Res g) (.new ι O) phases :=
    ⟨fun _ => none,fun _ => trivial,start⟩
  obtain ⟨a,history,phases,simulates⟩ := history_simulated
    (R := fun s a => ∃ phases, L.Simulates s a phases) (fun s visible s' a ⟨phases,simulates⟩ step => by
      obtain ⟨a',phases',history,simulates'⟩ := simulates_step lawful simulates step
      exact ⟨a',history,phases',simulates'⟩) begun run
  exact ⟨a,phases,history,simulates⟩

end Linearization

end Interaction
