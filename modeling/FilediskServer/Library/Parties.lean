import FilediskServer.Library.Wp

/-! Parties that run one program after the other over a state they share. Each party sees
a part of the state that the others do not change, and what it shows of that part alone
holds in any interleaving. -/
namespace Interaction
variable {S : Signature} {ε α β W V : Type}

/-- One party: the items it has yet to take up, what is left of its program for the current
one, and what its finished programs returned. -/
structure Party (S : Signature) (ε α β : Type) where
  todo : List α
  running : Option (Prog S ε β)
  returned : List β

inductive PartyStep (H : Handler S W) (program : α → Prog S ε β) :
    Party S ε α β → W → Party S ε α β → W → Prop
  | begin {a : α} {todo : List α} {returned : List β} {w : W} :
      PartyStep H program ⟨a :: todo,none,returned⟩ w ⟨todo,some (program a),returned⟩ w
  | advance {todo : List α} {returned : List β} {p p' : Prog S ε β} {w w' : W}
      {event : Option (Event S)} (step : Step H p w event p' w') :
      PartyStep H program ⟨todo,some p,returned⟩ w ⟨todo,some p',returned⟩ w'
  | finish {todo : List α} {returned : List β} {b : β} {w : W} :
      PartyStep H program ⟨todo,some (.ret b),returned⟩ w ⟨todo,none,returned ++ [b]⟩ w

/-- A step seen in a part of the state that is answered alike. -/
theorem step_view {H : Handler S W} {H' : Handler S V} {view : W → V} {p p' : Prog S ε β} {w w' : W}
    {event : Option (Event S)} (alike : ∀ o r, H w o r w' → H' (view w) o r (view w'))
    (step : Step H p w event p' w') : Step H' p (view w) event p' (view w') := by
  cases step with
  | call answered => exact .call (alike _ _ answered)
  | loop => exact .loop

/-- What no answer changes stays as it is. -/
theorem party_same {X : Type} {H : Handler S W} (view : W → X) {program : α → Prog S ε β}
    {party party' : Party S ε α β} {w w' : W} (same : ∀ o r, H w o r w' → view w' = view w)
    (stepped : PartyStep H program party w party' w') : view w' = view w := by
  cases stepped with
  | begin | finish => rfl
  | advance step =>
    cases step with
    | call answered => exact same _ _ answered
    | loop => rfl

/-- How far a party has come: the programs it finished returned what they should, and what
is left of the current one will do so too. -/
def Progress (H : Handler S V) (may : V → S.Op → Prop) (value : α → β) (reached : List α → V → Prop)
    (all : List α) (party : Party S ε α β) (v : V) : Prop :=
  ∃ done, party.returned = done.map value ∧
    match party.running with
    | none => all = done ++ party.todo ∧ reached done v
    | some p => ∃ a, all = done ++ a :: party.todo ∧
        Wp H may p (fun out v => out = .ok (value a) ∧ reached (done ++ [a]) v) v

section progress
variable {H : Handler S W} {H' : Handler S V} {view : W → V} {may : V → S.Op → Prop}
  {program : α → Prog S ε β} {value : α → β} {reached : List α → V → Prop} {all : List α}
  {party party' : Party S ε α β} {w w' : W}

theorem progress_start {v : V} (start : reached [] v) :
    Progress (ε := ε) H' may value reached all ⟨all,none,[]⟩ v := ⟨[],rfl,rfl,start⟩

theorem progress_step
    (each : ∀ done a todo v, all = done ++ a :: todo → reached done v →
      Wp H' may (program a) (fun out v => out = .ok (value a) ∧ reached (done ++ [a]) v) v)
    (alike : ∀ o r, H w o r w' → H' (view w) o r (view w'))
    (progress : Progress H' may value reached all party (view w))
    (stepped : PartyStep H program party w party' w') :
    Progress H' may value reached all party' (view w') := by
  obtain ⟨done,returned,at_⟩ := progress
  cases stepped with
  | @begin a todo =>
    obtain ⟨split,start⟩ := at_
    exact ⟨done,returned,a,split,each done a todo _ split start⟩
  | advance step =>
    obtain ⟨a,split,holds⟩ := at_
    exact ⟨done,returned,a,split,(wp_step (step_view alike step) holds).2⟩
  | finish =>
    obtain ⟨a,split,same,ended⟩ := at_
    cases same
    refine ⟨done ++ [a],?_,?_,ended⟩
    · rw [List.map_append,List.map_singleton,← returned]
    · rw [split,List.append_assoc,List.singleton_append]

/-- What every permitted answer keeps is kept by a step of the party. -/
theorem progress_keeps {K : W → Prop} (kept : ∀ o r, may (view w) o → H w o r w' → K w')
    (start : K w) (alike : ∀ o r, H w o r w' → H' (view w) o r (view w'))
    (progress : Progress H' may value reached all party (view w))
    (stepped : PartyStep H program party w party' w') : K w' := by
  obtain ⟨done,returned,at_⟩ := progress
  cases stepped with
  | begin | finish => exact start
  | advance step =>
    obtain ⟨a,split,holds⟩ := at_
    have permitted := (wp_step (step_view alike step) holds).1
    cases step with
    | call answered => exact kept _ _ (permitted _ rfl) answered
    | loop => exact start

/-- What a party has returned so far are the values of the first items. -/
theorem progress_returned {v : V} (progress : Progress H' may value reached all party v) :
    party.returned = (all.take party.returned.length).map value := by
  obtain ⟨done,returned,at_⟩ := progress
  have first : done <+: all := by
    cases running : party.running with
    | none => rw [running] at at_; exact ⟨_,at_.1.symm⟩
    | some p =>
      rw [running] at at_
      obtain ⟨a,split,-⟩ := at_
      exact ⟨_,split.symm⟩
  rw [returned,List.length_map,← List.prefix_iff_eq_take.mp first]

end progress

end Interaction
