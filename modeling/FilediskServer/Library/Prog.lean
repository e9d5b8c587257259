import Mathlib.Logic.Relation

/-! Interaction programs over an arbitrary signature of calls. A program answers,
throws, makes one call and continues with the result, or iterates a body until the
body leaves the loop. The environment is a relation and may answer a call in many
ways or not at all. -/
namespace Interaction

structure Signature where
  Op : Type
  Res : Op → Type

inductive Prog (S : Signature) (ε : Type) : Type → Type 1
  | ret {α : Type} (a : α) : Prog S ε α
  | throw {α : Type} (e : ε) : Prog S ε α
  | call {α : Type} (o : S.Op) (k : S.Res o → Prog S ε α) : Prog S ε α
  | loop {α σ β : Type} (body : σ → Prog S ε (σ ⊕ β)) (s : σ) (k : β → Prog S ε α) : Prog S ε α

abbrev Handler (S : Signature) (W : Type) := W → (o : S.Op) → S.Res o → W → Prop

abbrev Event (S : Signature) := (o : S.Op) × S.Res o

namespace Prog
variable {S : Signature} {ε α β γ σ : Type}

def bind {α β : Type} : Prog S ε α → (α → Prog S ε β) → Prog S ε β
  | .ret a, f => f a
  | .throw e, _ => .throw e
  | .call o k, f => .call o (fun r => (k r).bind f)
  | .loop body s k, f => .loop body s (fun b => (k b).bind f)

instance : Monad (Prog S ε) where
  pure := .ret
  bind := bind

/-- Iterates `body` from `s`; `inl` goes round again and `inr` leaves. -/
def iter (body : σ → Prog S ε (σ ⊕ β)) (s : σ) : Prog S ε β := .loop body s .ret

@[simp] theorem pure_eq (a : α) : (pure a : Prog S ε α) = .ret a := rfl
@[simp] theorem bind_eq (p : Prog S ε α) (f : α → Prog S ε β) : p >>= f = p.bind f := rfl
@[simp] theorem ret_bind (a : α) (f : α → Prog S ε β) : (ret a).bind f = f a := rfl
@[simp] theorem throw_bind (e : ε) (f : α → Prog S ε β) : (throw e).bind f = .throw e := rfl
@[simp] theorem call_bind (o : S.Op) (k : S.Res o → Prog S ε α) (f : α → Prog S ε β) :
    (call o k).bind f = .call o (fun r => (k r).bind f) := rfl
@[simp] theorem loop_bind (body : σ → Prog S ε (σ ⊕ γ)) (s : σ) (k : γ → Prog S ε α)
    (f : α → Prog S ε β) : (loop body s k).bind f = .loop body s (fun b => (k b).bind f) := rfl

theorem bind_assoc (p : Prog S ε α) (f : α → Prog S ε β) (g : β → Prog S ε γ) :
    (p.bind f).bind g = p.bind (fun a => (f a).bind g) := by
  induction p with
  | ret a => rfl
  | throw e => rfl
  | call o k ih =>
    simp only [call_bind]
    congr 1
    funext r
    exact ih r f
  | loop body s k _ ih =>
    simp only [loop_bind]
    congr 1
    funext b
    exact ih b f

/-- A loop that went round once more, before what follows it. -/
theorem round_bind (body : σ → Prog S ε (σ ⊕ γ)) (s : σ) (k : γ → Prog S ε α) (f : α → Prog S ε β) :
    ((body s).bind (Sum.elim (fun next => loop body next k) k)).bind f =
      (body s).bind (Sum.elim (fun next => loop body next fun b => (k b).bind f) fun b => (k b).bind f) := by
  rw [bind_assoc]
  congr 1
  funext next
  cases next <;> rfl

end Prog

variable {S : Signature} {ε α β σ W : Type}

/-- One step of a residual program. A call carries its event; going round a loop is
silent. -/
inductive Step (H : Handler S W) : {α : Type} → Prog S ε α → W → Option (Event S) →
    Prog S ε α → W → Prop
  | call {α : Type} {o : S.Op} {k : S.Res o → Prog S ε α} {w w' : W} {r : S.Res o}
      (answered : H w o r w') : Step H (.call o k) w (some ⟨o,r⟩) (k r) w'
  | loop {α σ β : Type} {body : σ → Prog S ε (σ ⊕ β)} {s : σ} {k : β → Prog S ε α} {w : W} :
      Step H (.loop body s k) w none
        ((body s).bind (Sum.elim (fun next => .loop body next k) k)) w

/-- What is left of a program at some point of a run, and the state at that point. -/
def Reaches (H : Handler S W) (p : Prog S ε α) (w : W) (p' : Prog S ε α) (w' : W) : Prop :=
  Relation.ReflTransGen (fun before after : Prog S ε α × W =>
    ∃ event, Step H before.1 before.2 event after.1 after.2) (p,w) (p',w')

/-- Runs to completion, with the value returned or the exception thrown. -/
inductive Runs (H : Handler S W) : {α : Type} → Prog S ε α → W → Except ε α → W → Prop
  | ret {α : Type} (a : α) (w : W) : Runs H (.ret a) w (.ok a) w
  | throw {α : Type} (e : ε) (w : W) : Runs H (.throw e : Prog S ε α) w (.error e) w
  | call {α : Type} {o : S.Op} {k : S.Res o → Prog S ε α} {w w₁ w' : W} {r : S.Res o}
      {out : Except ε α} (answered : H w o r w₁) (rest : Runs H (k r) w₁ out w') :
      Runs H (.call o k) w out w'
  | again {α σ β : Type} {body : σ → Prog S ε (σ ⊕ β)} {s next : σ} {k : β → Prog S ε α}
      {w w₁ w' : W} {out : Except ε α} (round : Runs H (body s) w (.ok (.inl next)) w₁)
      (rest : Runs H (.loop body next k) w₁ out w') : Runs H (.loop body s k) w out w'
  | leave {α σ β : Type} {body : σ → Prog S ε (σ ⊕ β)} {s : σ} {b : β} {k : β → Prog S ε α}
      {w w₁ w' : W} {out : Except ε α} (round : Runs H (body s) w (.ok (.inr b)) w₁)
      (rest : Runs H (k b) w₁ out w') : Runs H (.loop body s k) w out w'
  | fail {α σ β : Type} {body : σ → Prog S ε (σ ⊕ β)} {s : σ} {e : ε} {k : β → Prog S ε α}
      {w w' : W} (round : Runs H (body s) w (.error e) w') :
      Runs H (.loop body s k) w (.error e) w'

def Then {α β : Type} (next : α → W → Except ε β → W → Prop) :
    Except ε α → W → Except ε β → W → Prop
  | .ok a, w, out, w' => next a w out w'
  | .error e, w, out, w' => out = .error e ∧ w' = w

def RunsThen (H : Handler S W) (p : Prog S ε α) (f : α → Prog S ε β) (w : W) (out : Except ε β)
    (w' : W) : Prop :=
  ∃ mid w₁, Runs H p w mid w₁ ∧ Then (fun a => Runs H (f a)) mid w₁ out w'

private theorem runs_loop_split {H : Handler S W} {q : Prog S ε β} {w w' : W} {out : Except ε β}
    (run : Runs H q w out w') : ∀ {σ γ : Type} {body : σ → Prog S ε (σ ⊕ γ)} {s : σ}
      {k : γ → Prog S ε α} {f : α → Prog S ε β}, q = .loop body s (fun b => (k b).bind f) →
      (∀ b w out w', Runs H ((k b).bind f) w out w' → RunsThen H (k b) f w out w') →
      RunsThen H (.loop body s k) f w out w' := by
  -- The rounds of the loop are followed one by one until the run leaves it.
  induction run with
  | ret | throw | call => intro _ _ _ _ _ _ same; cases same
  | again round rest _ ih =>
    intro _ _ _ _ _ _ same after
    cases same
    obtain ⟨mid,w₁,first,second⟩ := ih rfl after
    exact ⟨mid,w₁,.again round first,second⟩
  | leave round rest =>
    intro _ _ _ _ _ _ same after
    cases same
    obtain ⟨mid,w₁,first,second⟩ := after _ _ _ _ rest
    exact ⟨mid,w₁,.leave round first,second⟩
  | fail round => intro _ _ _ _ _ _ same _; cases same; exact ⟨.error _,_,.fail round,rfl,rfl⟩

private theorem runs_bind_split {H : Handler S W} {p : Prog S ε α} {f : α → Prog S ε β} {w w' : W}
    {out : Except ε β} (run : Runs H (p.bind f) w out w') : RunsThen H p f w out w' := by
  induction p generalizing w out w' with
  | ret a => exact ⟨.ok a,w,.ret a w,run⟩
  | throw e => cases run; exact ⟨.error e,_,.throw e _,rfl,rfl⟩
  | call o k ih =>
    cases run with
    | call answered rest =>
      obtain ⟨mid,w₁,first,second⟩ := ih _ rest
      exact ⟨mid,w₁,.call answered first,second⟩
  | loop body s k _ ih => exact runs_loop_split run rfl (fun b _ _ _ => ih b)

private theorem runs_bind_join {H : Handler S W} {p : Prog S ε α} {f : α → Prog S ε β}
    {w w₁ w' : W} {mid : Except ε α} {out : Except ε β} (first : Runs H p w mid w₁)
    (second : Then (fun a => Runs H (f a)) mid w₁ out w') : Runs H (p.bind f) w out w' := by
  induction first with
  | ret a w => exact second
  | throw e w => obtain ⟨rfl,rfl⟩ := second; exact .throw e _
  | call answered _ ih => exact .call answered (ih second)
  | again round _ _ ih => exact .again round (ih second)
  | leave round _ _ ih => exact .leave round (ih second)
  | fail round => obtain ⟨rfl,rfl⟩ := second; exact .fail round

theorem runs_bind {H : Handler S W} {p : Prog S ε α} {f : α → Prog S ε β} {w w' : W}
    {out : Except ε β} : Runs H (p.bind f) w out w' ↔ RunsThen H p f w out w' :=
  ⟨runs_bind_split,fun ⟨_,_,first,second⟩ => runs_bind_join first second⟩

theorem runs_of_step {H : Handler S W} {p p' : Prog S ε α} {w w₁ w' : W} {event : Option (Event S)}
    {out : Except ε α} (step : Step H p w event p' w₁) (run : Runs H p' w₁ out w') :
    Runs H p w out w' := by
  cases step with
  | call answered => exact .call answered run
  | loop =>
    obtain ⟨mid,w₂,round,rest⟩ := runs_bind.mp run
    match mid with
    | .ok (.inl next) => exact .again round rest
    | .ok (.inr b) => exact .leave round rest
    | .error e => obtain ⟨rfl,rfl⟩ := rest; exact .fail round

theorem step_bind {H : Handler S W} {p p' : Prog S ε α} (f : α → Prog S ε β) {w w' : W}
    {event : Option (Event S)} (step : Step H p w event p' w') : Step H (p.bind f) w event (p'.bind f) w' := by
  cases step with
  | call answered => exact .call answered
  | loop =>
    rw [Prog.round_bind]
    exact .loop

theorem reaches_bind {H : Handler S W} {p p' : Prog S ε α} (f : α → Prog S ε β) {w w' : W}
    (reached : Reaches H p w p' w') : Reaches H (p.bind f) w (p'.bind f) w' := by
  have along {q : Prog S ε α × W} (reached : Relation.ReflTransGen (fun before after : Prog S ε α × W =>
      ∃ event, Step H before.1 before.2 event after.1 after.2) (p,w) q) :
      Reaches H (p.bind f) w (q.1.bind f) q.2 := by
    induction reached with
    | refl => exact .refl
    | tail _ stepped ih =>
      obtain ⟨event,step⟩ := stepped
      exact .tail ih ⟨event,step_bind f step⟩
  exact along reached

def Prog.ended {α : Type} : Except ε α → Prog S ε α
  | .ok a => .ret a
  | .error e => .throw e

/-- A finished run is a run that has reached its end. -/
theorem reaches_of_runs {H : Handler S W} {p : Prog S ε α} {w w' : W} {out : Except ε α}
    (run : Runs H p w out w') : Reaches H p w (.ended out) w' := by
  induction run with
  | ret a w => exact .refl
  | throw e w => exact .refl
  | call answered _ ih => exact .head ⟨_,.call answered⟩ ih
  | @again α σ β body s next k w w₁ w' out _ _ ihRound ih | @leave α σ β body s next k w w₁ w' out _ _ ihRound ih =>
    have round := reaches_bind (Sum.elim (fun next => .loop body next k) k) ihRound
    exact .head ⟨_,.loop⟩ (.trans round ih)
  | fail _ ihRound => exact .head ⟨_,.loop⟩ (reaches_bind _ ihRound)

/-- An environment that gives at most one answer to a call, as a function. -/
abbrev Responder (S : Signature) (W : Type) := W → (o : S.Op) → Option (S.Res o × W)

namespace Responder

def Within (f : Responder S W) (H : Handler S W) : Prop :=
  ∀ w o r w', f w o = some (r,w') → H w o r w'

def step (f : Responder S W) {α : Type} : Prog S ε α → W → Option (Prog S ε α × W)
  | .ret _, _ => none
  | .throw _, _ => none
  | .call o k, w => (f w o).map fun answer => (k answer.1,answer.2)
  | .loop body s k, w => some ((body s).bind (Sum.elim (fun next => .loop body next k) k),w)

def run (f : Responder S W) {α : Type} : Nat → Prog S ε α → W → Option (Except ε α × W)
  | _, .ret a, w => some (.ok a,w)
  | _, .throw e, w => some (.error e,w)
  | 0, _, _ => none
  | fuel + 1, p, w =>
    match f.step p w with
    | some (p',w') => f.run fuel p' w'
    | none => none

theorem step_sound_at {f : Responder S W} {H : Handler S W} (holds : W → Prop)
    {p p' : Prog S ε α} {w w' : W} (start : holds w)
    (within : ∀ o r w', f w o = some (r,w') → H w o r w' ∧ holds w')
    (stepped : f.step p w = some (p',w')) : (∃ event, Step H p w event p' w') ∧ holds w' := by
  cases p with
  | ret a => cases stepped
  | throw e => cases stepped
  | call o k =>
    obtain ⟨⟨r,w₁⟩,answered,same⟩ := Option.map_eq_some_iff.mp stepped
    cases same
    have answer := within _ _ _ answered
    exact ⟨⟨_,.call answer.1⟩,answer.2⟩
  | loop body s k => cases stepped; exact ⟨⟨none,.loop⟩,start⟩

theorem step_sound {f : Responder S W} {H : Handler S W} (within : f.Within H)
    {p p' : Prog S ε α} {w w' : W} (stepped : f.step p w = some (p',w')) :
    ∃ event, Step H p w event p' w' :=
  (step_sound_at (fun _ => True) trivial (fun o r w' answered => ⟨within w o r w' answered,trivial⟩) stepped).1

theorem run_sound {f : Responder S W} {H : Handler S W} (within : f.Within H) (fuel : Nat)
    (p : Prog S ε α) (w w' : W) (out : Except ε α) (ran : f.run fuel p w = some (out,w')) :
    Runs H p w out w' := by
  induction fuel generalizing p w with
  | zero =>
    cases p with
    | ret a => cases ran; exact .ret a _
    | throw e => cases ran; exact .throw e _
    | call o k => cases ran
    | loop body s k => cases ran
  | succ fuel ih =>
    cases p with
    | ret a => cases ran; exact .ret a _
    | throw e => cases ran; exact .throw e _
    | call o k | loop body s k =>
      unfold run at ran
      split at ran
      next p' w₁ stepped =>
        obtain ⟨event,first⟩ := step_sound within stepped
        exact runs_of_step first (ih p' w₁ ran)
      next => cases ran

end Responder

end Interaction
