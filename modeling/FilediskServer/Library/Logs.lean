import FilediskServer.Library.Threads
import FilediskServer.Library.Traces

/-! The log of the calls of programs that run side by side. What is shown of a program for all
answers that it may be given holds of each of them, by what is its own in the log. -/
namespace Interaction
variable {S : Signature} {ε α W ι : Type}

/-- Any fair answer, listed. -/
def Answering (fair : (o : S.Op) → S.Res o → Prop) : Handler S (List (Event S)) :=
  fun trace o r trace' => trace' = trace ++ [⟨o,r⟩] ∧ fair o r

def own [DecidableEq ι] (log : List (ι × Event S)) (i : ι) : List (Event S) :=
  (log.filter (·.1 = i)).map Prod.snd

/-- A step of one of them is noted. -/
def note (log : List (ι × Event S)) (i : ι) (event : Option (Event S)) : List (ι × Event S) :=
  log ++ event.toList.map fun e => (i,e)

/-- Each call was permitted by what its program had been answered before. -/
def Permitted [DecidableEq ι] (may : List (Event S) → S.Op → Prop) (log : List (ι × Event S)) : Prop :=
  ∀ before x after, log = before ++ x :: after → may (own before x.1) x.2.1

section logs
variable {may : List (Event S) → S.Op → Prop} {log : List (ι × Event S)} {i j : ι} {event : Option (Event S)}

@[simp] theorem note_none : note log i none = log := List.append_nil log

theorem note_some (e : Event S) : note log i (some e) = log ++ [(i,e)] := rfl

variable [DecidableEq ι]

theorem own_append (log later : List (ι × Event S)) (i : ι) : own (log ++ later) i = own log i ++ own later i := by
  simp [own]

theorem own_cons_self (x : ι × Event S) (log : List (ι × Event S)) : own (x :: log) x.1 = x.2 :: own log x.1 := by
  simp [own]

theorem own_note_self : own (note log i event) i = own log i ++ event.toList := by
  cases event <;> simp [own,note]

theorem own_note_other (other : j ≠ i) : own (note log i event) j = own log j := by
  cases event <;> simp [own,note,other.symm]

theorem own_unused (unused : ∀ x ∈ log, x.1 ≠ i) : own log i = [] := by
  simpa [own] using unused

theorem permitted_note (permitted : Permitted may log) (now : ∀ e ∈ event, may (own log i) e.1) :
    Permitted may (note log i event) := by
  cases event with
  | none => simpa using permitted
  | some e =>
    intro before x after same
    rw [note_some] at same
    obtain rfl | ⟨rest,last,rfl⟩ := after.eq_nil_or_concat
    · obtain ⟨rfl,new⟩ := List.append_inj' same rfl
      obtain rfl := List.singleton_inj.mp new
      exact now e rfl
    · rw [List.concat_eq_append,← List.cons_append,← List.append_assoc] at same
      exact permitted before x rest (List.append_inj' same rfl).1

variable {fair : (o : S.Op) → S.Res o → Prop} {H : Handler S W} {p p' : Prog S ε α} {w w' : W}
  {post : Except ε α → List (Event S) → Prop}

theorem step_answering (trace : List (Event S)) (fairly : ∀ w o r w', H w o r w' → fair o r)
    (step : Step H p w event p' w') : Step (Answering fair) p trace event p' (trace ++ event.toList) := by
  cases step with
  | call answered => exact .call ⟨rfl,fairly _ _ _ _ answered⟩
  | loop =>
    rw [Option.toList_none,List.append_nil]
    exact .loop

/-- A program goes on as it should, and its call was permitted. -/
theorem wp_note (fairly : ∀ w o r w', H w o r w' → fair o r) (step : Step H p w event p' w')
    (holds : Wp (Answering fair) may p post (own log i)) :
    (∀ e ∈ event, may (own log i) e.1) ∧ Wp (Answering fair) may p' post (own (note log i event) i) := by
  rw [own_note_self]
  exact wp_step (step_answering _ fairly step) holds

end logs

section runs
variable {L G : Type} [DecidableEq ι] {H : ι → Handler S (L × G)} {first s : Pool S ε α ι L G}

/-- A run of programs over a shared state, with the log of all their calls. -/
inductive Ran (H : ι → Handler S (L × G)) (first : Pool S ε α ι L G) :
    List (ι × Event S) → Pool S ε α ι L G → Prop
  | start : Ran H first [] first
  | turn {log : List (ι × Event S)} {s s' : Pool S ε α ι L G} {i : ι} {event : Option (Event S)}
      (ran : Ran H first log s) (turn : Turn H i s event s') : Ran H first (note log i event) s'

theorem exists_log (run : Relation.ReflTransGen (fun s s' => ∃ i event, Turn H i s event s') first s) :
    ∃ log, Ran H first log s := by
  induction run with
  | refl => exact ⟨[],.start⟩
  | tail _ step ih =>
    obtain ⟨log,ran⟩ := ih
    obtain ⟨i,event,turn⟩ := step
    exact ⟨_,ran.turn turn⟩

/-- What is shown of each program for all answers holds of it in every run. -/
theorem wp_ran {may : List (Event S) → S.Op → Prop} {fair : (o : S.Op) → S.Res o → Prop}
    {post : ι → Except ε α → List (Event S) → Prop} {log : List (ι × Event S)}
    (fairly : ∀ i w o r w', H i w o r w' → fair o r) (ran : Ran H first log s)
    (start : ∀ i, Wp (Answering fair) may (first.threads i).1 (post i) []) :
    Permitted may log ∧ ∀ i, Wp (Answering fair) may (s.threads i).1 (post i) (own log i) := by
  induction ran with
  | start =>
    refine ⟨fun before x after same => ?_,start⟩
    cases before <;> cases same
  | @turn log s s' i event ran turn ih =>
    obtain ⟨permitted,holds⟩ := ih
    cases turn with
    | mk up step =>
      obtain ⟨allowed,goesOn⟩ := wp_note (fairly i) step (holds i)
      refine ⟨permitted_note permitted allowed,fun j => ?_⟩
      by_cases same : j = i
      · subst same
        simpa using goesOn
      · rw [own_note_other same]
        simpa [Function.update_of_ne same] using holds j

end runs

end Interaction
