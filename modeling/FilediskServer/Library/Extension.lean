import FilediskServer.Library.Total

/-! Programs in a signature that has calls of a second kind beside those of the first. What is
shown of a program holds where further calls are answered too, and calls that only note
something can be erased. -/
namespace Interaction
variable {S T : Signature} {N ε α β σ W : Type}

abbrev Signature.plus (S T : Signature) : Signature := ⟨S.Op ⊕ T.Op,Sum.elim S.Res T.Res⟩

abbrev Signature.notes (N : Type) : Signature := ⟨N,fun _ => Unit⟩

namespace Prog

def lift {α : Type} : Prog S ε α → Prog (S.plus T) ε α
  | .ret a => .ret a
  | .throw e => .throw e
  | .call o k => .call (.inl o) fun r => (k r).lift
  | .loop body s k => .loop (fun s => (body s).lift) s fun b => (k b).lift

theorem lift_bind (p : Prog S ε α) (f : α → Prog S ε β) :
    (p.bind f).lift (T := T) = p.lift.bind fun a => (f a).lift := by
  induction p with
  | ret a | throw e => rfl
  | call o k ih =>
    simp only [call_bind,lift]
    congr 1
    funext r
    exact ih r f
  | loop body s k _ ih =>
    simp only [loop_bind,lift]
    congr 1
    funext b
    exact ih b f

theorem lift_round (body : σ → Prog S ε (σ ⊕ β)) (s : σ) (k : β → Prog S ε α) :
    ((body s).bind (Sum.elim (fun next => loop body next k) k)).lift (T := T) = (body s).lift.bind
      (Sum.elim (fun next => loop (fun s => (body s).lift) next fun b => (k b).lift) fun b => (k b).lift) := by
  rw [lift_bind]
  congr 1
  funext next
  cases next <;> rfl

/-- The program without its notes. -/
def erase {α : Type} : Prog (S.plus (.notes N)) ε α → Prog S ε α
  | .ret a => .ret a
  | .throw e => .throw e
  | .call (.inl o) k => .call o fun r => (k r).erase
  | .call (.inr _) k => (k ()).erase
  | .loop body s k => .loop (fun s => (body s).erase) s fun b => (k b).erase

theorem erase_bind (p : Prog (S.plus (.notes N)) ε α) (f : α → Prog (S.plus (.notes N)) ε β) :
    (p.bind f).erase = p.erase.bind fun a => (f a).erase := by
  induction p with
  | ret a | throw e => rfl
  | call o k ih =>
    cases o with
    | inl o => exact congrArg (Prog.call o) (funext fun r => ih r f)
    | inr n => exact ih () f
  | loop body s k _ ih =>
    simp only [loop_bind,erase]
    congr 1
    funext b
    exact ih b f

theorem erase_round (body : σ → Prog (S.plus (.notes N)) ε (σ ⊕ β)) (s : σ)
    (k : β → Prog (S.plus (.notes N)) ε α) :
    ((body s).bind (Sum.elim (fun next => loop body next k) k)).erase = (body s).erase.bind
      (Sum.elim (fun next => loop (fun s => (body s).erase) next fun b => (k b).erase)
        fun b => (k b).erase) := by
  rw [erase_bind]
  congr 1
  funext next
  cases next <;> rfl

theorem erase_lift (p : Prog S ε α) : (p.lift (T := .notes N)).erase = p := by
  induction p with
  | ret a | throw e => rfl
  | call o k ih => exact congrArg (Prog.call o) (funext ih)
  | loop body s k ihBody ih =>
    simp only [lift,erase]
    congr 1
    · funext s
      exact ihBody s
    · funext b
      exact ih b

end Prog

theorem erase_then {p : Prog (S.plus (.notes N)) ε α} {f : α → Prog (S.plus (.notes N)) ε β}
    {q : Prog S ε α} {g : α → Prog S ε β} (first : p.erase = q) (rest : ∀ a, (f a).erase = g a) :
    (p.bind f).erase = q.bind g := by
  rw [Prog.erase_bind,first]
  exact congrArg (Prog.bind q) (funext rest)

/-- The calls of the first kind are answered as before. -/
def Extends (G : Handler (S.plus T) W) (H : Handler S W) : Prop :=
  ∀ w (o : S.Op) (r : S.Res o) w', G w (.inl o) r w' ↔ H w o r w'

def Beside (H : Handler S W) (K : Handler T W) : Handler (S.plus T) W
  | w, .inl o, r, w' => H w o r w'
  | w, .inr o, r, w' => K w o r w'

theorem beside_extends (H : Handler S W) (K : Handler T W) : Extends (Beside H K) H :=
  fun _ _ _ _ => Iff.rfl

section lift
variable {G : Handler (S.plus T) W} {H : Handler S W} {w : W}

/-- A lifted program makes calls of the first kind only. -/
theorem wp_lift {may : W → S.Op → Prop} {p : Prog S ε α} {post : Except ε α → W → Prop}
    (extends' : Extends G H) (holds : Wp H may p post w) :
    Wp G (fun w => Sum.elim (may w) fun _ => False) p.lift post w := by
  induction p generalizing w with
  | ret a | throw e => exact holds
  | call o k ih =>
    refine ⟨holds.1,fun r w' answered => ?_⟩
    exact ih r (holds.2 r w' ((extends' w o r w').mp answered))
  | loop body s k ihBody ih =>
    obtain ⟨J,start,round⟩ := holds
    refine ⟨J,start,fun s w inside => wp_mono ?_ (ihBody s (round s w inside))⟩
    intro out w' reached
    match out with
    | .ok (.inl next) => exact reached
    | .ok (.inr b) => exact ih b reached
    | .error e => exact reached

theorem runs_lift {p : Prog S ε α} {w' : W} {out : Except ε α} (extends' : Extends G H)
    (run : Runs H p w out w') : Runs G p.lift w out w' := by
  induction run with
  | ret a w => exact .ret a w
  | throw e w => exact .throw e w
  | call answered _ ih => exact .call ((extends' _ _ _ _).mpr answered) ih
  | again _ _ ihRound ih => exact .again ihRound ih
  | leave _ _ ihRound ih => exact .leave ihRound ih
  | fail _ ihRound => exact .fail ihRound

private theorem step_lift {p p' : Prog S ε α} {w' : W} {event : Option (Event S)} (extends' : Extends G H)
    (step : Step H p w event p' w') : ∃ event, Step G p.lift w event p'.lift w' := by
  cases step with
  | @call o k _ _ r answered =>
    have answer : G w (.inl o) r w' := (extends' w o r w').mpr answered
    exact ⟨_,.call answer⟩
  | loop =>
    rw [Prog.lift_round]
    exact ⟨_,.loop⟩

private theorem step_lift_inv {p : Prog S ε α} {q : Prog (S.plus T) ε α} {w' : W}
    {event : Option (Event (S.plus T))} (extends' : Extends G H) (step : Step G p.lift w event q w') :
    ∃ event p', Step H p w event p' w' ∧ q = p'.lift := by
  cases p with
  | ret a | throw e => cases step
  | call o k =>
    cases step with
    | @call _ _ _ _ r answered => exact ⟨_,_,.call ((extends' w o r w').mp answered),rfl⟩
  | loop body s k =>
    cases step with
    | loop => exact ⟨_,_,.loop,(Prog.lift_round body s k).symm⟩

theorem total_lift {p : Prog S ε α} {post : Except ε α → W → Prop} (extends' : Extends G H)
    (total : Total H post p w) : Total G post p.lift w := by
  induction total with
  | ret holds => exact .ret holds
  | throw holds => exact .throw holds
  | step can _ ih =>
    apply Total.step
    · obtain ⟨_,_,_,first⟩ := can
      obtain ⟨_,lifted⟩ := step_lift extends' first
      exact ⟨_,_,_,lifted⟩
    · intro event q w' step
      obtain ⟨_,p',first,rfl⟩ := step_lift_inv extends' step
      exact ih _ p' w' first

theorem can_lift {p : Prog S ε α} {post : Except ε α → W → Prop} (extends' : Extends G H)
    (can : Can H p post w) : Can G p.lift post w := by
  obtain ⟨out,w',run,holds⟩ := can
  exact ⟨out,w',runs_lift extends' run,holds⟩

end lift

section erase
variable {H : Handler S W} {w w' : W}

/-- A note leaves everything as it is. -/
def Silent : Handler (.notes N) W := fun w _ _ w' => w' = w

private theorem reaches_erase_step {p p' : Prog (S.plus (.notes N)) ε α}
    {event : Option (Event (S.plus (.notes N)))} (step : Step (Beside H Silent) p w event p' w') :
    Reaches H p.erase w p'.erase w' := by
  cases step with
  | @call o k _ _ r answered =>
    cases o with
    | inl o => exact .single ⟨_,.call answered⟩
    | inr n => obtain rfl := answered; exact .refl
  | @loop _ _ body s k w =>
    rw [Prog.erase_round]
    exact .single ⟨_,.loop⟩

private theorem step_erase {p : Prog (S.plus (.notes N)) ε α} {q : Prog S ε α} {event : Option (Event S)}
    (step : Step H p.erase w event q w') :
    ∃ p', Reaches (Beside H Silent) p w p' w' ∧ p'.erase = q := by
  induction p with
  | ret a | throw e => cases step
  | call o k ih =>
    cases o with
    | inl o =>
      cases step with
      | @call _ _ _ _ r answered =>
        have answer : Beside H (Silent (N := N)) w (.inl o) r w' := answered
        exact ⟨k r,.single ⟨_,.call answer⟩,rfl⟩
    | inr n =>
      obtain ⟨p',reached,same⟩ := ih () step
      have noted : Beside H (Silent (N := N)) w (.inr n) () w := rfl
      exact ⟨p',.head ⟨_,.call noted⟩ reached,same⟩
  | loop body s k =>
    cases step with
    | loop =>
      exact ⟨_,.single ⟨_,.loop⟩,Prog.erase_round body s k⟩

/-- The points of a run are those of a run of the program with its notes. -/
theorem reaches_erase {p : Prog (S.plus (.notes N)) ε α} {q : Prog S ε α} :
    Reaches H p.erase w q w' ↔ ∃ p', Reaches (Beside H Silent) p w p' w' ∧ p'.erase = q := by
  constructor
  · intro reached
    have along {x : Prog S ε α × W} (reached : Relation.ReflTransGen (fun before after : Prog S ε α × W =>
        ∃ event, Step H before.1 before.2 event after.1 after.2) (p.erase,w) x) :
        ∃ p', Reaches (Beside H Silent) p w p' x.2 ∧ p'.erase = x.1 := by
      induction reached with
      | refl => exact ⟨p,.refl,rfl⟩
      | tail _ stepped ih =>
        obtain ⟨event,step⟩ := stepped
        obtain ⟨p',before,same⟩ := ih
        rw [← same] at step
        obtain ⟨p'',after,same⟩ := step_erase step
        exact ⟨p'',.trans before after,same⟩
    exact along reached
  · rintro ⟨p',reached,rfl⟩
    have along {x : Prog (S.plus (.notes N)) ε α × W}
        (reached : Relation.ReflTransGen (fun before after : Prog (S.plus (.notes N)) ε α × W =>
          ∃ event, Step (Beside H Silent) before.1 before.2 event after.1 after.2) (p,w) x) :
        Reaches H p.erase w x.1.erase x.2 := by
      induction reached with
      | refl => exact .refl
      | tail _ stepped ih =>
        obtain ⟨event,step⟩ := stepped
        exact .trans ih (reaches_erase_step step)
    exact along reached

end erase

def Comes (H : Handler S W) (p : Prog S ε α) (w : W) (o : S.Op) : Prop :=
  ∃ k w', Reaches H p w (.call o k) w'

section comes
variable {H : Handler S W} {w : W} {o : S.Op}

theorem comes_here (k : S.Res o → Prog S ε α) : Comes H (.call o k) w o := ⟨k,w,.refl⟩

theorem comes_first {p : Prog S ε α} {f : α → Prog S ε β} (comes : Comes H p w o) :
    Comes H (p.bind f) w o := by
  obtain ⟨k,w',reached⟩ := comes
  exact ⟨_,w',reaches_bind f reached⟩

theorem comes_then {p : Prog S ε α} {f : α → Prog S ε β}
    (can : Can H p (After (fun a w' => Comes H (f a) w' o) fun _ _ => False) w) : Comes H (p.bind f) w o := by
  obtain ⟨out,w₁,run,after⟩ := can
  match out with
  | .ok a =>
    obtain ⟨k,w',reached⟩ := after
    exact ⟨k,w',.trans (reaches_bind f (reaches_of_runs run)) reached⟩
  | .error e => exact after.elim

theorem comes_may {may : W → S.Op → Prop} {p : Prog S ε α} {post : Except ε α → W → Prop}
    (holds : Wp H may p post w) (comes : Comes H p w o) : ∃ w', may w' o := by
  obtain ⟨k,w',reached⟩ := comes
  exact ⟨w',(wp_reaches reached holds).1⟩

end comes

end Interaction
