import FilediskServer.Library.Wp

/-! Which calls a program can come to, whatever it is answered, and runs that keep a note of
the calls made so far. -/
namespace Interaction
variable {S : Signature} {ε α β σ W G : Type}

/-- Every call of the program is one of `Q`. -/
def Only (Q : S.Op → Prop) : {α : Type} → Prog S ε α → Prop
  | _, .ret _ => True
  | _, .throw _ => True
  | _, .call o k => Q o ∧ ∀ r, Only Q (k r)
  | _, .loop body _ k => (∀ s, Only Q (body s)) ∧ ∀ b, Only Q (k b)

section only
variable {Q : S.Op → Prop}

theorem only_bind {p : Prog S ε α} {f : α → Prog S ε β} (first : Only Q p)
    (rest : ∀ a, Only Q (f a)) : Only Q (p.bind f) := by
  induction p with
  | ret a => exact rest a
  | throw e => trivial
  | call o k ih => exact ⟨first.1,fun r => ih r (first.2 r) rest⟩
  | loop body s k _ ih => exact ⟨first.1,fun b => ih b (first.2 b) rest⟩

/-- What the calls of a program keep holds at its end. -/
theorem wp_only {H : Handler S W} {may : W → S.Op → Prop} {K : W → Prop} {p : Prog S ε α}
    {post : Except ε α → W → Prop} {w : W} (only : Only Q p) (start : K w)
    (kept : ∀ w o r w', K w → Q o → H w o r w' → K w') (allowed : ∀ w o, K w → Q o → may w o)
    (after : ∀ out w, K w → post out w) : Wp H may p post w := by
  induction p generalizing w with
  | ret a => exact after _ w start
  | throw e => exact after _ w start
  | call o k ih =>
    refine ⟨allowed w o start only.1,fun r w' answered => ?_⟩
    exact ih r (only.2 r) (kept w o r w' start only.1 answered) after
  | loop body s k ihBody ih =>
    refine ⟨fun _ => K,start,fun s w inside => ihBody s (only.1 s) inside ?_⟩
    intro out w' holds
    match out with
    | .ok (.inl next) => exact holds
    | .ok (.inr b) => exact ih b (only.2 b) holds after
    | .error e => exact after _ w' holds

theorem wp_only_allow {H : Handler S W} {may : W → S.Op → Prop} {p : Prog S ε α}
    {post : Except ε α → W → Prop} {w : W} (only : Only Q p) (holds : Wp H may p post w) :
    Wp H (fun w o => may w o ∧ Q o) p post w := by
  induction p generalizing w with
  | ret a | throw e => exact holds
  | call o k ih =>
    exact ⟨⟨holds.1,only.1⟩,fun r w' answered => ih r (only.2 r) (holds.2 r w' answered)⟩
  | loop body s k ihBody ih =>
    obtain ⟨J,start,round⟩ := holds
    refine ⟨J,start,fun s w inside => wp_mono ?_ (ihBody s (only.1 s) (round s w inside))⟩
    intro out w' reached
    match out with
    | .ok (.inl next) => exact reached
    | .ok (.inr b) => exact ih b (only.2 b) reached
    | .error e => exact reached

end only

/-- The environment with a note that each call with its answer changes. -/
def Tracked (next : G → Event S → G) (H : Handler S W) : Handler S (G × W) :=
  fun x o r x' => x'.1 = next x.1 ⟨o,r⟩ ∧ H x.2 o r x'.2

/-- The note alone, where the answers are left open. -/
def Noting (next : G → Event S → G) : Handler S G := fun g o r g' => g' = next g ⟨o,r⟩

section tracked
variable {H : Handler S W} {next : G → Event S → G}

theorem wp_tracked {may : W → S.Op → Prop} {K : G → Prop} {p : Prog S ε α}
    {post : Except ε α → W → Prop} {g : G} {w : W} (start : K g)
    (kept : ∀ g w o r, K g → may w o → K (next g ⟨o,r⟩)) (holds : Wp H may p post w) :
    Wp (Tracked next H) (fun x o => may x.2 o ∧ K x.1) p (fun out x => post out x.2 ∧ K x.1) (g,w) := by
  induction p generalizing g w with
  | ret a => exact ⟨holds,start⟩
  | throw e => exact ⟨holds,start⟩
  | call o k ih =>
    refine ⟨⟨holds.1,start⟩,fun r x answered => ?_⟩
    obtain ⟨g',w'⟩ := x
    obtain ⟨rfl,answer⟩ := answered
    exact ih r (kept g w o r start holds.1) (holds.2 r w' answer)
  | loop body s k ihBody ih =>
    obtain ⟨J,inside,round⟩ := holds
    refine ⟨fun s x => J s x.2 ∧ K x.1,⟨inside,start⟩,fun s x inside => ?_⟩
    apply wp_mono _ (ihBody s inside.2 (round s x.2 inside.1))
    intro out x' reached
    match out with
    | .ok (.inl next) => exact reached
    | .ok (.inr b) => exact ih b reached.2 reached.1
    | .error e => exact reached

/-- Every run can be noted. -/
theorem runs_tracked {p : Prog S ε α} {w w' : W} {out : Except ε α} (run : Runs H p w out w') (g : G) :
    ∃ g', Runs (Tracked next H) p (g,w) out (g',w') := by
  have alike (w : W) (x : G × W) (o : S.Op) (r : S.Res o) (w' : W) (same : x.2 = w) (_ : True)
      (answered : H w o r w') : ∃ x', Tracked next H x o r x' ∧ x'.2 = w' := by
    subst same
    exact ⟨(next x.1 ⟨o,r⟩,w'),⟨rfl,answered⟩,rfl⟩
  obtain ⟨⟨g',_⟩,run',rfl⟩ := runs_transfer alike run (wp_true p) (show (g,w).2 = w from rfl)
  exact ⟨g',run'⟩

end tracked

/-- The environment with the list of the calls made so far and their answers. -/
abbrev Traced (H : Handler S W) : Handler S (List (Event S) × W) :=
  Tracked (fun trace event => trace ++ [event]) H

/-- The same answers, listed. -/
def Responder.tracing (f : Responder S W) : Responder S (List (Event S) × W) := fun x o =>
  (f x.2 o).map fun answer => (answer.1,(x.1 ++ [⟨o,answer.1⟩],answer.2))

theorem Responder.tracing_within {f : Responder S W} {H : Handler S W} (within : f.Within H) :
    f.tracing.Within (Traced H) := by
  intro x o r x' answered
  obtain ⟨⟨r,w'⟩,answer,same⟩ := Option.map_eq_some_iff.mp answered
  cases same
  exact ⟨rfl,within _ _ _ _ answer⟩

end Interaction
