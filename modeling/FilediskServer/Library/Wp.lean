import FilediskServer.Library.Prog

/-! Weakest preconditions of interaction programs. The precondition is read off the
program; a loop needs an invariant of its state and the world. It holds for every
answer the environment may give, and names the calls the program may make. The runs that
some answers make possible have rules of their own. -/
namespace Interaction
variable {S : Signature} {ε α β σ W : Type}

/-- Every answered call is one `may` permits, and every end of the program meets `post`. -/
def Wp (H : Handler S W) (may : W → S.Op → Prop) :
    {α : Type} → Prog S ε α → (Except ε α → W → Prop) → W → Prop
  | _, .ret a, post, w => post (.ok a) w
  | _, .throw e, post, w => post (.error e) w
  | _, .call o k, post, w => may w o ∧ ∀ r w', H w o r w' → Wp H may (k r) post w'
  | _, @Prog.loop _ _ _ τ _ body s k, post, w => ∃ J : τ → W → Prop, J s w ∧ ∀ s w, J s w →
      Wp H may (body s) (fun out w' => match out with
        | .ok (.inl next) => J next w'
        | .ok (.inr b) => Wp H may (k b) post w'
        | .error e => post (.error e) w') w

def After (next : α → W → Prop) (thrown : ε → W → Prop) : Except ε α → W → Prop
  | .ok a, w => next a w
  | .error e, w => thrown e w

section rules
variable {H : Handler S W} {may : W → S.Op → Prop} {post post' : Except ε α → W → Prop} {w : W}

@[simp] theorem wp_ret (a : α) : Wp H may (.ret a) post w ↔ post (.ok a) w := Iff.rfl
@[simp] theorem wp_throw (e : ε) : Wp H may (.throw e) post w ↔ post (.error e) w := Iff.rfl

theorem wp_mono {p : Prog S ε α} (weaker : ∀ out w, post out w → post' out w)
    (holds : Wp H may p post w) : Wp H may p post' w := by
  induction p generalizing w with
  | ret a => exact weaker _ _ holds
  | throw e => exact weaker _ _ holds
  | call o k ih => exact ⟨holds.1,fun r w' answered => ih r weaker (holds.2 r w' answered)⟩
  | loop body s k ihBody ih =>
    obtain ⟨J,start,round⟩ := holds
    refine ⟨J,start,fun s w inside => ihBody s ?_ (round s w inside)⟩
    intro out w' reached
    match out with
    | .ok (.inl next) => exact reached
    | .ok (.inr b) => exact ih b weaker reached
    | .error e => exact weaker _ _ reached

/-- What every answer keeps holds at the end too. -/
theorem wp_kept {K : W → Prop} {p : Prog S ε α}
    (kept : ∀ w o r w', K w → H w o r w' → K w') (start : K w)
    (holds : Wp H may p post w) : Wp H may p (fun out w => post out w ∧ K w) w := by
  induction p generalizing w with
  | ret a => exact ⟨holds,start⟩
  | throw e => exact ⟨holds,start⟩
  | call o k ih =>
    exact ⟨holds.1,fun r w' answered => ih r (kept w o r w' start answered) (holds.2 r w' answered)⟩
  | loop body s k ihBody ih =>
    obtain ⟨J,inside,round⟩ := holds
    refine ⟨fun s w => J s w ∧ K w,⟨inside,start⟩,fun s w inside => ?_⟩
    apply wp_mono _ (ihBody s inside.2 (round s w inside.1))
    intro out w' reached
    match out with
    | .ok (.inl next) => exact reached
    | .ok (.inr b) => exact ih b reached.2 reached.1
    | .error e => exact reached

theorem wp_bind {p : Prog S ε α} {f : α → Prog S ε β} {post : Except ε β → W → Prop}
    (holds : Wp H may p (After (fun a => Wp H may (f a) post) (fun e => post (.error e))) w) :
    Wp H may (p.bind f) post w := by
  induction p generalizing w with
  | ret a => exact holds
  | throw e => exact holds
  | call o k ih => exact ⟨holds.1,fun r w' answered => ih r (holds.2 r w' answered)⟩
  | loop body s k _ ih =>
    obtain ⟨J,start,round⟩ := holds
    refine ⟨J,start,fun s w inside => wp_mono ?_ (round s w inside)⟩
    intro out w' reached
    match out with
    | .ok (.inl next) => exact reached
    | .ok (.inr b) => exact ih b reached
    | .error e => exact reached

/-- The precondition is kept by a step, whose call was permitted. -/
theorem wp_step {p p' : Prog S ε α} {w' : W} {event : Option (Event S)}
    (step : Step H p w event p' w') (holds : Wp H may p post w) :
    (∀ e ∈ event, may w e.1) ∧ Wp H may p' post w' := by
  cases step with
  | call answered => exact ⟨by rintro _ ⟨⟩; exact holds.1,holds.2 _ _ answered⟩
  | loop =>
    obtain ⟨J,start,round⟩ := holds
    refine ⟨by rintro _ ⟨⟩,wp_bind (wp_mono ?_ (round _ _ start))⟩
    intro out w' reached
    match out with
    | .ok (.inl next) => exact ⟨J,reached,round⟩
    | .ok (.inr b) => exact reached
    | .error e => exact reached

theorem wp_reaches {p p' : Prog S ε α} {w' : W} (reached : Reaches H p w p' w')
    (holds : Wp H may p post w) : Wp H may p' post w' := by
  have kept {q : Prog S ε α × W} (reached : Relation.ReflTransGen (fun before after : Prog S ε α × W =>
      ∃ event, Step H before.1 before.2 event after.1 after.2) (p,w) q) : Wp H may q.1 post q.2 := by
    induction reached with
    | refl => exact holds
    | tail _ stepped ih => obtain ⟨event,step⟩ := stepped; exact (wp_step step ih).2
  exact kept reached

theorem step_keeps {K : W → Prop} {p p' : Prog S ε α} {w' : W} {event : Option (Event S)}
    (kept : ∀ w o r w', K w → may w o → H w o r w' → K w') (start : K w)
    (holds : Wp H may p post w) (step : Step H p w event p' w') : K w' := by
  cases step with
  | call answered => exact kept _ _ _ _ start holds.1 answered
  | loop => exact start

/-- What every permitted answer keeps holds at every point of a run. -/
theorem reaches_keeps {K : W → Prop} {p p' : Prog S ε α} {w' : W}
    (kept : ∀ w o r w', K w → may w o → H w o r w' → K w') (start : K w)
    (holds : Wp H may p post w) (reached : Reaches H p w p' w') : K w' := by
  have along {q : Prog S ε α × W} (reached : Relation.ReflTransGen (fun before after : Prog S ε α × W =>
      ∃ event, Step H before.1 before.2 event after.1 after.2) (p,w) q) :
      Wp H may q.1 post q.2 ∧ K q.2 := by
    induction reached with
    | refl => exact ⟨holds,start⟩
    | tail _ stepped ih =>
      obtain ⟨event,step⟩ := stepped
      exact ⟨(wp_step step ih.1).2,step_keeps kept ih.2 ih.1 step⟩
  exact (along reached).2

theorem wp_allow {may' : W → S.Op → Prop} {p : Prog S ε α} (allowed : ∀ w o, may w o → may' w o)
    (holds : Wp H may p post w) : Wp H may' p post w := by
  induction p generalizing w with
  | ret a | throw e => exact holds
  | call o k ih => exact ⟨allowed _ _ holds.1,fun r w' answered => ih r (holds.2 r w' answered)⟩
  | loop body s k ihBody ih =>
    obtain ⟨J,start,round⟩ := holds
    refine ⟨J,start,fun s w inside => wp_mono ?_ (ihBody s (round s w inside))⟩
    intro out w' reached
    match out with
    | .ok (.inl next) => exact reached
    | .ok (.inr b) => exact ih b reached
    | .error e => exact reached

theorem wp_true (p : Prog S ε α) : Wp H (fun _ _ => True) p (fun _ _ => True) w := by
  induction p generalizing w with
  | ret a => trivial
  | throw e => trivial
  | call o k ih => exact ⟨trivial,fun r _ _ => ih r⟩
  | loop body s k ihBody ih =>
    refine ⟨fun _ _ => True,trivial,fun s w _ => wp_mono ?_ (ihBody s)⟩
    intro out w' _
    match out with
    | .ok (.inl next) => trivial
    | .ok (.inr b) => exact ih b
    | .error e => trivial

theorem wp_runs {p : Prog S ε α} {w' : W} {out : Except ε α} (run : Runs H p w out w')
    (holds : Wp H may p post w) : post out w' := by
  induction run with
  | ret a w => exact holds
  | throw e w => exact holds
  | call answered _ ih => exact ih (holds.2 _ _ answered)
  | again _ _ ihRound ih =>
    obtain ⟨J,start,round⟩ := holds
    exact ih ⟨J,ihRound (round _ _ start),round⟩
  | leave _ _ ihRound ih =>
    obtain ⟨J,start,round⟩ := holds
    exact ih (ihRound (round _ _ start))
  | fail _ ihRound =>
    obtain ⟨J,start,round⟩ := holds
    exact ihRound (round _ _ start)

end rules

/-- Two environments whose states stay related: what the first answers to a permitted
call, the second answers too. -/
theorem runs_transfer {V : Type} {H : Handler S W} {H' : Handler S V} {may : W → S.Op → Prop}
    {R : W → V → Prop}
    (alike : ∀ w v o r w', R w v → may w o → H w o r w' → ∃ v', H' v o r v' ∧ R w' v')
    {p : Prog S ε α} {w w' : W} {v : V} {out : Except ε α} {post : Except ε α → W → Prop}
    (run : Runs H p w out w') (holds : Wp H may p post w) (related : R w v) :
    ∃ v', Runs H' p v out v' ∧ R w' v' := by
  induction run generalizing v with
  | ret a w => exact ⟨v,.ret a v,related⟩
  | throw e w => exact ⟨v,.throw e v,related⟩
  | call answered _ ih =>
    obtain ⟨v₁,answer,kept⟩ := alike _ _ _ _ _ related holds.1 answered
    obtain ⟨v',rest,final⟩ := ih (holds.2 _ _ answered) kept
    exact ⟨v',.call answer rest,final⟩
  | again round _ ihRound ih =>
    obtain ⟨J,start,body⟩ := holds
    obtain ⟨v₁,first,kept⟩ := ihRound (body _ _ start) related
    obtain ⟨v',rest,final⟩ := ih ⟨J,wp_runs round (body _ _ start),body⟩ kept
    exact ⟨v',.again first rest,final⟩
  | leave round _ ihRound ih =>
    obtain ⟨J,start,body⟩ := holds
    obtain ⟨v₁,first,kept⟩ := ihRound (body _ _ start) related
    obtain ⟨v',rest,final⟩ := ih (wp_runs round (body _ _ start)) kept
    exact ⟨v',.leave first rest,final⟩
  | fail round ihRound =>
    obtain ⟨J,start,body⟩ := holds
    obtain ⟨v',first,kept⟩ := ihRound (body _ _ start) related
    exact ⟨v',.fail first,kept⟩

/-- What is shown in one environment holds in another whose answers to the permitted calls
the first can give too. -/
theorem wp_transfer {V : Type} {H : Handler S W} {H' : Handler S V} {may : W → S.Op → Prop}
    {may' : V → S.Op → Prop} {R : W → V → Prop}
    (alike : ∀ w v o, R w v → may w o → may' v o ∧
      ∀ r v', H' v o r v' → ∃ w', H w o r w' ∧ R w' v')
    {p : Prog S ε α} {w : W} {v : V} {post : Except ε α → W → Prop} (holds : Wp H may p post w)
    (related : R w v) : Wp H' may' p (fun out v' => ∃ w', R w' v' ∧ post out w') v := by
  induction p generalizing w v with
  | ret a | throw e => exact ⟨w,related,holds⟩
  | call o k ih =>
    obtain ⟨allowed,answers⟩ := alike w v o related holds.1
    refine ⟨allowed,fun r v' answered => ?_⟩
    obtain ⟨w',same,kept⟩ := answers r v' answered
    exact ih r (holds.2 r w' same) kept
  | loop body s k ihBody ih =>
    obtain ⟨J,start,round⟩ := holds
    refine ⟨fun s v => ∃ w, R w v ∧ J s w,⟨w,related,start⟩,?_⟩
    intro s v ⟨w,related,inside⟩
    refine wp_mono ?_ (ihBody s (round s w inside) related)
    intro out v' ⟨w',kept,reached⟩
    match out with
    | .ok (.inl next) => exact ⟨w',kept,reached⟩
    | .ok (.inr b) => exact ih b reached kept
    | .error e => exact ⟨w',kept,reached⟩

/-- What is shown of an environment holds in one that answers no more. -/
theorem wp_within {H H' : Handler S W} {may : W → S.Op → Prop} {post : Except ε α → W → Prop} {w : W}
    {p : Prog S ε α} (within : ∀ w o r w', may w o → H' w o r w' → H w o r w')
    (holds : Wp H may p post w) : Wp H' may p post w := by
  have alike (w v : W) (o : S.Op) (same : w = v) (allowed : may w o) :
      may v o ∧ ∀ r v', H' v o r v' → ∃ w', H w o r w' ∧ w' = v' := by
    subst same
    exact ⟨allowed,fun r v' answered => ⟨v',within _ _ _ _ allowed answered,rfl⟩⟩
  apply wp_mono _ (wp_transfer alike holds rfl)
  rintro out _ ⟨w',rfl,reached⟩
  exact reached

def Can (H : Handler S W) (p : Prog S ε α) (post : Except ε α → W → Prop) (w : W) : Prop :=
  ∃ out w', Runs H p w out w' ∧ post out w'

section can
variable {H : Handler S W} {post : Except ε α → W → Prop} {w w₁ : W}

theorem can_ret {a : α} (holds : post (.ok a) w) : Can H (.ret a) post w := ⟨_,_,.ret a w,holds⟩

theorem can_throw {e : ε} (holds : post (.error e) w) : Can H (.throw e) post w :=
  ⟨_,_,.throw e w,holds⟩

theorem can_call {o : S.Op} {k : S.Res o → Prog S ε α} {r : S.Res o} (answered : H w o r w₁)
    (rest : Can H (k r) post w₁) : Can H (.call o k) post w := by
  obtain ⟨out,w',run,holds⟩ := rest
  exact ⟨out,w',.call answered run,holds⟩

theorem can_bind {p : Prog S ε α} {f : α → Prog S ε β} {post : Except ε β → W → Prop}
    (holds : Can H p (After (fun a => Can H (f a) post) (fun e => post (.error e))) w) :
    Can H (p.bind f) post w := by
  obtain ⟨mid,w₁,first,after⟩ := holds
  match mid with
  | .ok a =>
    obtain ⟨out,w',second,holds⟩ := after
    exact ⟨out,w',runs_bind.mpr ⟨_,_,first,second⟩,holds⟩
  | .error e => exact ⟨_,_,runs_bind.mpr ⟨_,_,first,rfl,rfl⟩,after⟩

theorem can_loop {body : σ → Prog S ε (σ ⊕ β)} {s : σ} {k : β → Prog S ε α}
    (round : Can H (body s) (fun out w' => match out with
      | .ok (.inl next) => Can H (.loop body next k) post w'
      | .ok (.inr b) => Can H (k b) post w'
      | .error e => post (.error e) w') w) : Can H (.loop body s k) post w := by
  obtain ⟨mid,w₁,first,after⟩ := round
  match mid with
  | .ok (.inl next) => obtain ⟨out,w',rest,holds⟩ := after; exact ⟨out,w',.again first rest,holds⟩
  | .ok (.inr b) => obtain ⟨out,w',rest,holds⟩ := after; exact ⟨out,w',.leave first rest,holds⟩
  | .error e => exact ⟨_,_,.fail first,after⟩

end can

/-- Some point of a run meets `Q`. -/
def Meets (H : Handler S W) (p : Prog S ε α) (Q : W → Prop) (w : W) : Prop :=
  ∃ p' w', Reaches H p w p' w' ∧ Q w'

section meets
variable {H : Handler S W} {Q : W → Prop} {w w₁ : W}

theorem meets_call {o : S.Op} {k : S.Res o → Prog S ε α} {r : S.Res o} (answered : H w o r w₁)
    (holds : Q w₁) : Meets H (.call o k) Q w := ⟨_,w₁,.single ⟨_,.call answered⟩,holds⟩

theorem meets_first {p : Prog S ε α} {f : α → Prog S ε β} (met : Meets H p Q w) :
    Meets H (p.bind f) Q w := by
  obtain ⟨p',w',reached,holds⟩ := met
  exact ⟨_,w',reaches_bind f reached,holds⟩

theorem meets_bind {p : Prog S ε α} {f : α → Prog S ε β}
    (met : Can H p (After (fun a => Meets H (f a) Q) (fun _ => Q)) w) : Meets H (p.bind f) Q w := by
  obtain ⟨out,w₁,run,holds⟩ := met
  have first := reaches_bind f (reaches_of_runs run)
  match out with
  | .ok a =>
    obtain ⟨p',w',rest,holds⟩ := holds
    exact ⟨p',w',.trans first rest,holds⟩
  | .error e => exact ⟨_,w₁,first,holds⟩

end meets

/-- Some point of a run, with what is left of the program there, meets `Q`. -/
def Leads (H : Handler S W) (p : Prog S ε α) (Q : Prog S ε α → W → Prop) (w : W) : Prop :=
  ∃ p' w', Reaches H p w p' w' ∧ Q p' w'

section leads
variable {H : Handler S W} {w : W}

theorem leads_here {p : Prog S ε α} {Q : Prog S ε α → W → Prop} (holds : Q p w) : Leads H p Q w :=
  ⟨p,w,.refl,holds⟩

theorem leads_then {p : Prog S ε α} {f : α → Prog S ε β} {Q : Prog S ε β → W → Prop}
    (can : Can H p (After (fun a => Leads H (f a) Q) fun _ _ => False) w) : Leads H (p.bind f) Q w := by
  obtain ⟨out,w₁,run,after⟩ := can
  match out with
  | .ok a =>
    obtain ⟨p',w',reached,holds⟩ := after
    exact ⟨p',w',.trans (reaches_bind f (reaches_of_runs run)) reached,holds⟩
  | .error e => exact after.elim

theorem can_of_leads {p : Prog S ε α} {post : Except ε α → W → Prop}
    (leads : Leads H p (fun p' => Can H p' post) w) : Can H p post w := by
  obtain ⟨p',w',reached,can⟩ := leads
  have along {q : Prog S ε α × W} (reached : Relation.ReflTransGen (fun before after : Prog S ε α × W =>
      ∃ event, Step H before.1 before.2 event after.1 after.2) q (p',w')) : Can H q.1 post q.2 := by
    induction reached using Relation.ReflTransGen.head_induction_on with
    | refl => exact can
    | head stepped _ ih =>
      obtain ⟨event,step⟩ := stepped
      obtain ⟨out,w'',run,holds⟩ := ih
      exact ⟨out,w'',runs_of_step step run,holds⟩
  exact along reached

end leads

end Interaction
