import FilediskServer.Library.Wp

/-! Total correctness: a program that can go on at every point, comes to an end whatever it
is answered, and ends as it should. Answers that only ask for another try are allowed a
number of times that is given, so that a program which tries again comes to an end. -/
namespace Interaction
variable {S : Signature} {ε α β γ σ W : Type}

inductive Total (H : Handler S W) (post : Except ε α → W → Prop) : Prog S ε α → W → Prop
  | ret {a : α} {w : W} (holds : post (.ok a) w) : Total H post (.ret a) w
  | throw {e : ε} {w : W} (holds : post (.error e) w) : Total H post (.throw e) w
  | step {p : Prog S ε α} {w : W} (can : ∃ event p' w', Step H p w event p' w')
      (all : ∀ event p' w', Step H p w event p' w' → Total H post p' w') : Total H post p w

section rules
variable {H : Handler S W} {w : W}

theorem total_call {post : Except ε α → W → Prop} {o : S.Op} {k : S.Res o → Prog S ε α}
    (can : ∃ r w', H w o r w') (all : ∀ r w', H w o r w' → Total H post (k r) w') :
    Total H post (.call o k) w := by
  apply Total.step
  · obtain ⟨r,w',answered⟩ := can
    exact ⟨_,_,w',.call answered⟩
  · intro event p' w' step
    cases step with
    | call answered => exact all _ _ answered

theorem total_mono {post post' : Except ε α → W → Prop} {p : Prog S ε α}
    (weaker : ∀ out w, post out w → post' out w) (total : Total H post p w) : Total H post' p w := by
  induction total with
  | ret holds => exact .ret (weaker _ _ holds)
  | throw holds => exact .throw (weaker _ _ holds)
  | step can _ ih => exact .step can ih

private theorem step_bind_inv {p : Prog S ε α} {f : α → Prog S ε β} {q : Prog S ε β} {w' : W}
    {event : Option (Event S)} (can : ∃ event p' w', Step H p w event p' w')
    (step : Step H (p.bind f) w event q w') :
    ∃ p', Step H p w event p' w' ∧ q = p'.bind f := by
  cases p with
  | ret a | throw e => obtain ⟨_,_,_,none⟩ := can; cases none
  | call o k =>
    cases step with
    | call answered => exact ⟨_,.call answered,rfl⟩
  | loop body s k =>
    cases step with
    | loop => exact ⟨_,.loop,(Prog.round_bind body s k f).symm⟩

theorem total_bind {p : Prog S ε α} {f : α → Prog S ε β} {post : Except ε β → W → Prop}
    (total : Total H (After (fun a => Total H post (f a)) (fun e => post (.error e))) p w) :
    Total H post (p.bind f) w := by
  induction total with
  | ret holds => exact holds
  | throw holds => exact .throw holds
  | step can _ ih =>
    apply Total.step
    · obtain ⟨_,_,_,first⟩ := can
      exact ⟨_,_,_,step_bind f first⟩
    · intro event q w' step
      obtain ⟨p',first,rfl⟩ := step_bind_inv can step
      exact ih event p' w' first

theorem total_round {body : σ → Prog S ε (σ ⊕ β)} {s : σ} {k : β → Prog S ε α}
    {post : Except ε α → W → Prop} (round : Total H (fun (out : Except ε (σ ⊕ β)) w' => match out with
      | .ok (.inl next) => Total H post (.loop body next k) w'
      | .ok (.inr b) => Total H post (k b) w'
      | .error e => post (.error e) w') (body s) w) : Total H post (.loop body s k) w := by
  refine .step ⟨_,_,_,.loop⟩ ?_
  intro event p' w' step
  cases step with
  | loop =>
    apply total_bind
    apply total_mono _ round
    intro out w' reached
    match out with
    | .ok (.inl next) => exact reached
    | .ok (.inr b) => exact reached
    | .error e => exact reached

/-- A loop whose rounds keep `J` and each lower the measure. -/
theorem total_loop {J : σ → W → Prop} (measure : σ → W → Nat) {body : σ → Prog S ε (σ ⊕ β)} {s : σ}
    {k : β → Prog S ε α} {post : Except ε α → W → Prop} (start : J s w)
    (round : ∀ s w, J s w → Total H (fun (out : Except ε (σ ⊕ β)) w' => match out with
      | .ok (.inl next) => J next w' ∧ measure next w' < measure s w
      | .ok (.inr b) => Total H post (k b) w'
      | .error e => post (.error e) w') (body s) w) : Total H post (.loop body s k) w := by
  induction bound : measure s w using Nat.strongRecOn generalizing s w with
  | _ n ih =>
    subst bound
    apply total_round
    apply total_mono _ (round s w start)
    intro out w' reached
    match out with
    | .ok (.inl next) => exact ih _ reached.2 reached.1 rfl
    | .ok (.inr b) => exact reached
    | .error e => exact reached

/-- What comes to an end whatever it is answered can come to an end. -/
theorem can_of_total {p : Prog S ε α} {post : Except ε α → W → Prop} (total : Total H post p w) :
    Can H p post w := by
  induction total with
  | ret holds => exact can_ret holds
  | throw holds => exact can_throw holds
  | step can _ ih =>
    obtain ⟨event,p',w',step⟩ := can
    obtain ⟨out,v,run,holds⟩ := ih event p' w' step
    exact ⟨out,v,runs_of_step step run,holds⟩

theorem total_runs {p : Prog S ε α} {post : Except ε α → W → Prop} {out : Except ε α} {w' : W}
    (run : Runs H p w out w') (total : Total H post p w) : post out w' := by
  induction total generalizing out w' with
  | ret holds => cases run; exact holds
  | throw holds => cases run; exact holds
  | step can all ih =>
    cases run with
    | ret | throw => obtain ⟨_,_,_,none⟩ := can; cases none
    | call answered rest => exact ih _ _ _ (.call answered) rest
    | again round rest => exact ih _ _ _ .loop (runs_bind.mpr ⟨_,_,round,rest⟩)
    | leave round rest => exact ih _ _ _ .loop (runs_bind.mpr ⟨_,_,round,rest⟩)
    | fail round => exact ih _ _ _ .loop (runs_bind.mpr ⟨_,_,round,rfl,rfl⟩)

/-- A program that comes to an end comes to one that its precondition allows. -/
theorem total_of_wp {may : W → S.Op → Prop} {p : Prog S ε α} {post : Except ε α → W → Prop}
    (total : Total H (fun _ _ => True) p w) (holds : Wp H may p post w) : Total H post p w := by
  induction total with
  | ret => exact .ret holds
  | throw => exact .throw holds
  | step can _ ih => exact .step can fun event p' w' step => ih event p' w' step (wp_step step holds).2

end rules

/-- The environment with a number of answers of the kind `spends` that it may still give. -/
def Bounded (spends : Event S → Prop) (H : Handler S W) : Handler S (W × Nat) := fun x o r x' =>
  H x.1 o r x'.1 ∧ (spends ⟨o,r⟩ ∧ x.2 = x'.2 + 1 ∨ ¬ spends ⟨o,r⟩ ∧ x'.2 = x.2)

section bounded
variable {spends : Event S → Prop} {H : Handler S W} {x x' : W × Nat} {o : S.Op} {r : S.Res o}

theorem bounded_spent (answered : Bounded spends H x o r x') (is : spends ⟨o,r⟩) : x.2 = x'.2 + 1 :=
  answered.2.elim And.right fun free => absurd is free.1

theorem bounded_free (answered : Bounded spends H x o r x') (free : ¬ spends ⟨o,r⟩) : x'.2 = x.2 :=
  answered.2.elim (fun spent => absurd spent.1 free) And.right

end bounded

/-- What holds however often such an answer is given. -/
theorem wp_bounded {spends : Event S → Prop} {H : Handler S W} {may : W → S.Op → Prop} {p : Prog S ε α}
    {post : Except ε α → W → Prop} {w : W} (holds : Wp H may p post w) (n : Nat) :
    Wp (Bounded spends H) (fun x => may x.1) p (fun out x => post out x.1) (w,n) := by
  have alike (w : W) (x : W × Nat) (o : S.Op) (same : x.1 = w) (allowed : may w o) :
      may x.1 o ∧ ∀ r x', Bounded spends H x o r x' → ∃ w', H w o r w' ∧ x'.1 = w' := by
    subst same
    exact ⟨allowed,fun r x' answered => ⟨x'.1,answered.1,rfl⟩⟩
  apply wp_mono _ (wp_transfer alike holds (show (w,n).1 = w from rfl))
  rintro out x ⟨_,rfl,reached⟩
  exact reached

/-- Every finished run gave some number of such answers. -/
theorem runs_bounded (spends : Event S → Prop) {H : Handler S W} {p : Prog S ε α} {w w' : W}
    {out : Except ε α} (run : Runs H p w out w') (left : Nat) :
    ∃ n, Runs (Bounded spends H) p (w,n) out (w',left) := by
  induction run generalizing left with
  | ret a w => exact ⟨left,.ret a _⟩
  | throw e w => exact ⟨left,.throw e _⟩
  | @call α o k w w₁ w' r out answered _ ih =>
    obtain ⟨n,rest⟩ := ih left
    by_cases spent : spends ⟨o,r⟩
    · have answer : Bounded spends H (w,n + 1) o r (w₁,n) := ⟨answered,.inl ⟨spent,rfl⟩⟩
      exact ⟨n + 1,.call answer rest⟩
    · have answer : Bounded spends H (w,n) o r (w₁,n) := ⟨answered,.inr ⟨spent,rfl⟩⟩
      exact ⟨n,.call answer rest⟩
  | again _ _ ihRound ih =>
    obtain ⟨m,rest⟩ := ih left
    obtain ⟨n,round⟩ := ihRound m
    exact ⟨n,.again round rest⟩
  | leave _ _ ihRound ih =>
    obtain ⟨m,rest⟩ := ih left
    obtain ⟨n,round⟩ := ihRound m
    exact ⟨n,.leave round rest⟩
  | fail _ ihRound =>
    obtain ⟨n,round⟩ := ihRound left
    exact ⟨n,.fail round⟩

theorem runs_of_bounded {spends : Event S → Prop} {H : Handler S W} {p : Prog S ε α} {x x' : W × Nat}
    {out : Except ε α} (run : Runs (Bounded spends H) p x out x') : Runs H p x.1 out x'.1 := by
  induction run with
  | ret a x => exact .ret a x.1
  | throw e x => exact .throw e x.1
  | call answered _ ih => exact .call answered.1 ih
  | again _ _ ihRound ih => exact .again ihRound ih
  | leave _ _ ihRound ih => exact .leave ihRound ih
  | fail _ ihRound => exact .fail ihRound

/-- What is shown for every number of such answers holds of every finished run. -/
theorem runs_of_total {spends : Event S → Prop} {H : Handler S W} {p : Prog S ε α} {w w' : W}
    {out : Except ε α} {post : Except ε α → W → Prop} (run : Runs H p w out w')
    (total : ∀ n, Total (Bounded spends H) (fun out x => post out x.1) p (w,n)) : post out w' := by
  obtain ⟨n,bounded⟩ := runs_bounded spends run 0
  have holds := total_runs bounded (total n)
  exact holds

end Interaction
