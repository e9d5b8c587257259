import FilediskServer.Library.Threads

/-! What a program can count on while others move the state it shares with them: before each
of its calls they have moved the state along a relation, and left it sound. -/
namespace Interaction
variable {S : Signature} {ε α β σ ι L G : Type}

def Relied (H : Handler S (L × G)) (R : G → G → Prop) (sound : G → Prop) : Handler S (L × G) :=
  fun w o r w' => ∃ g, R w.2 g ∧ sound g ∧ H (w.1,g) o r w'

def Throughout (R : G → G → Prop) (sound : G → Prop) (may : L × G → S.Op → Prop) :
    L × G → S.Op → Prop :=
  fun w o => ∀ g, R w.2 g → sound g → may (w.1,g) o

def Stable (R : G → G → Prop) (holds : L × G → Prop) : Prop :=
  ∀ l g g', R g g' → holds (l,g) → holds (l,g')

/-- The last call of a thread, kept beside the state it acts on. -/
def Recording (acts : G → (o : S.Op) → S.Res o → G → Prop) : Handler S (Option (Event S) × G) :=
  fun w o r w' => acts w.2 o r w'.2 ∧ w'.1 = some ⟨o,r⟩

/-- The call a program makes next. -/
def about : Prog S ε α → Option S.Op
  | .call o _ => some o
  | _ => none

section rules
variable {H : Handler S (L × G)} {R : G → G → Prop} {sound : G → Prop}
  {may : L × G → S.Op → Prop} {post : Except ε α → L × G → Prop} {l : L} {g g' : G}

/-- What holds of a program holds still after the others have moved. -/
theorem wp_moved [IsPreorder G R] {p : Prog S ε α} (stable : ∀ out, Stable R (post out))
    (moved : R g g') (holds : Wp (Relied H R sound) (Throughout R sound may) p post (l,g)) :
    Wp (Relied H R sound) (Throughout R sound may) p post (l,g') := by
  induction p generalizing l g g' with
  | ret a => exact stable _ l g g' moved holds
  | throw e => exact stable _ l g g' moved holds
  | call o k =>
    refine ⟨fun g₁ later fine => holds.1 g₁ (trans_of R moved later) fine,fun r w' answered => ?_⟩
    obtain ⟨g₁,later,fine,answer⟩ := answered
    exact holds.2 r w' ⟨g₁,trans_of R moved later,fine,answer⟩
  | loop body s k ihBody ih =>
    -- The invariant of the loop is closed under the moves of the others.
    obtain ⟨J,start,round⟩ := holds
    refine ⟨fun s w => ∃ g, R g w.2 ∧ J s (w.1,g),⟨g,moved,start⟩,?_⟩
    intro s w inside
    obtain ⟨g₁,since,inside⟩ := inside
    apply ihBody s _ since
    · apply wp_mono _ (round s _ inside)
      intro out w' reached
      match out with
      | .ok (.inl next) => exact ⟨w'.2,refl_of R _,reached⟩
      | .ok (.inr b) => exact reached
      | .error e => exact reached
    · intro out l g g' moved reached
      match out with
      | .ok (.inl next) =>
        obtain ⟨g₁,since,inside⟩ := reached
        exact ⟨g₁,trans_of R since moved,inside⟩
      | .ok (.inr b) => exact ih b stable moved reached
      | .error e => exact stable _ l g g' moved reached

/-- A call is made in a state that meets what held before it and still does. -/
theorem wp_relied {o : S.Op} {k : S.Res o → Prog S ε α} {J : L × G → Prop}
    (stable : Stable R J) (now : J (l,g))
    (calls : ∀ g, sound g → J (l,g) → may (l,g) o ∧ ∀ r w', H (l,g) o r w' →
      Wp (Relied H R sound) (Throughout R sound may) (k r) post w') :
    Wp (Relied H R sound) (Throughout R sound may) (.call o k) post (l,g) := by
  refine ⟨fun g₁ later fine => (calls g₁ fine (stable l g g₁ later now)).1,?_⟩
  intro r w' answered
  obtain ⟨g₁,later,fine,answer⟩ := answered
  exact (calls g₁ fine (stable l g g₁ later now)).2 r w' answer

theorem wp_about [IsPreorder G R] {p : Prog S ε α} {o : S.Op} (next : about p = some o)
    (fine : sound g) (holds : Wp (Relied H R sound) (Throughout R sound may) p post (l,g)) :
    may (l,g) o := by
  cases p with
  | call _ k => cases next; exact holds.1 g (refl_of R g) fine
  | ret | throw | loop => cases next

theorem wp_loop {body : σ → Prog S ε (σ ⊕ β)} {s : σ} {k : β → Prog S ε α} {w : L × G}
    {J : σ → L × G → Prop} {Q : β → L × G → Prop} (start : J s w)
    (round : ∀ s w, J s w → Wp (Relied H R sound) (Throughout R sound may) (body s)
      (After (fun next => Sum.elim J Q next) (fun e => post (.error e))) w)
    (after : ∀ b w, Q b w → Wp (Relied H R sound) (Throughout R sound may) (k b) post w) :
    Wp (Relied H R sound) (Throughout R sound may) (.loop body s k) post w := by
  refine ⟨J,start,fun s w inside => wp_mono ?_ (round s w inside)⟩
  intro out w' reached
  match out with
  | .ok (.inl next) => exact reached
  | .ok (.inr b) => exact after b w' reached
  | .error e => exact reached

end rules

section turns
variable [DecidableEq ι] {H : ι → Handler S (L × G)} {R : ι → G → G → Prop} {sound : G → Prop}
  {may : ι → L × G → S.Op → Prop} {post : ι → Except ε α → L × G → Prop}

/-- Every thread goes on as it should, whatever the others do to the state. -/
structure Guaranteed (H : ι → Handler S (L × G)) (R : ι → G → G → Prop) (sound : G → Prop)
    (may : ι → L × G → S.Op → Prop) (post : ι → Except ε α → L × G → Prop)
    (s : Pool S ε α ι L G) : Prop where
  shared : sound s.shared
  threads : ∀ i, Wp (Relied (H i) (R i) sound) (Throughout (R i) sound (may i)) (s.threads i).1
    (post i) ((s.threads i).2,s.shared)

/-- A permitted call keeps the state sound and moves it as every other thread expects. -/
def Respects (H : ι → Handler S (L × G)) (R : ι → G → G → Prop) (sound : G → Prop)
    (may : ι → L × G → S.Op → Prop) : Prop :=
  ∀ i l g o r l' g', sound g → may i (l,g) o → H i (l,g) o r (l',g') →
    sound g' ∧ ∀ j, j ≠ i → R j g g'

variable {i : ι} {s s' : Pool S ε α ι L G} {event : Option (Event S)}

theorem step_relied {H : Handler S (L × G)} {R : G → G → Prop} [IsPreorder G R] {sound : G → Prop}
    {p p' : Prog S ε α} {w w' : L × G} {event : Option (Event S)} (fine : sound w.2)
    (step : Step H p w event p' w') : Step (Relied H R sound) p w event p' w' := by
  cases step with
  | call answered => exact .call ⟨_,refl_of R _,fine,answered⟩
  | loop => exact .loop

/-- A silent step leaves the state alone, and a call acts on it. -/
theorem step_acts {H : Handler S (L × G)} {p p' : Prog S ε α} {w w' : L × G}
    {event : Option (Event S)} (step : Step H p w event p' w') :
    (event = none ∧ w' = w) ∨ ∃ o r, event = some ⟨o,r⟩ ∧ H w o r w' := by
  cases step with
  | call answered => exact .inr ⟨_,_,rfl,answered⟩
  | loop => exact .inl ⟨rfl,rfl⟩

theorem turn_guaranteed [∀ i, IsPreorder G (R i)] (respects : Respects H R sound may)
    (stable : ∀ i out, Stable (R i) (post i out)) (turn : Turn H i s event s')
    (holds : Guaranteed H R sound may post s) :
    (∀ e ∈ event, may i ((s.threads i).2,s.shared) e.1) ∧ Guaranteed H R sound may post s' := by
  cases turn with
  | @mk p l g up step =>
    have own := wp_step (step_relied holds.shared step) (holds.threads i)
    have allowed : ∀ e ∈ event, may i ((s.threads i).2,s.shared) e.1 := fun e made =>
      own.1 e made s.shared (refl_of (R i) _) holds.shared
    have kept : sound g ∧ ∀ j, j ≠ i → R j s.shared g := by
      rcases step_acts step with ⟨_,same⟩ | ⟨o,r,made,acts⟩
      · obtain ⟨-,rfl⟩ := Prod.mk.inj same
        exact ⟨holds.shared,fun j _ => refl_of (R j) _⟩
      · exact respects i _ _ o r l g holds.shared (allowed _ made) acts
    refine ⟨allowed,kept.1,fun j => ?_⟩
    by_cases same : j = i
    · subst same
      simpa using own.2
    · have moved := wp_moved (stable j) (kept.2 j same) (holds.threads j)
      simpa [Function.update_of_ne same] using moved

end turns

end Interaction
