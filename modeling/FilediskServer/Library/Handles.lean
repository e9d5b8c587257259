import Mathlib.Data.List.Chain
import Mathlib.Logic.Function.Basic

/-! A table of numbered handles, of which a new one gets the lowest free number, and owners
that hold a number each. What an owner holds stays its own as long as nobody releases a
number that is another's. -/
namespace Handles
variable {O ι : Type}

abbrev Table (O : Type) := Nat → Option O

structure Lowest (t : Table O) (n : Nat) : Prop where
  free : t n = none
  least : ∀ m < n, t m ≠ none

instance (t : Table O) (n : Nat) : Decidable (Lowest t n) :=
  decidable_of_iff ((t n).isNone ∧ ∀ m < n, (t m).isSome)
    ⟨fun ⟨free,least⟩ => ⟨by simpa using free,fun m less => by simpa [Option.ne_none_iff_isSome] using least m less⟩,
      fun lowest => ⟨by simp [lowest.free],fun m less => Option.ne_none_iff_isSome.mp (lowest.least m less)⟩⟩

def Table.assign (t : Table O) (n : Nat) (o : O) : Table O := Function.update t n (some o)

def Table.release (t : Table O) (n : Nat) : Table O := Function.update t n none

@[simp] theorem assign_self (t : Table O) (n : Nat) (o : O) : t.assign n o n = some o :=
  Function.update_self ..

@[simp] theorem release_self (t : Table O) (n : Nat) : t.release n n = none :=
  Function.update_self ..

theorem release_free {t : Table O} {n : Nat} (free : t n = none) : t.release n = t := by
  unfold Table.release
  rw [← free]
  exact Function.update_eq_self ..

/-- Every owner finds at its number what it holds, and no two hold the same. An object of a
kind that is `listed` is behind the number of its owner and no other. -/
structure Owned (listed : O → Prop) (t : Table O) (holds : ι → Option (Nat × O)) : Prop where
  reach : ∀ i n o, holds i = some (n,o) → t n = some o
  apart : ∀ i j m n o, holds i = some (m,o) → holds j = some (n,o) → i = j
  owner : ∀ n o, listed o → t n = some o → ∃ i, holds i = some (n,o)

section rules
variable {listed : O → Prop} {t : Table O} {holds : ι → Option (Nat × O)} {i : ι} {n : Nat} {o : O}

theorem Owned.gone (owned : Owned listed t holds) (kind : listed o)
    (nobody : ∀ j m, holds j ≠ some (m,o)) (n : Nat) : t n ≠ some o := by
  intro there
  obtain ⟨j,held⟩ := owned.owner n o kind there
  exact nobody j n held

theorem Owned.other_number (owned : Owned listed t holds) {j : ι} {m : Nat} {o' : O}
    (here : holds i = some (n,o)) (there : holds j = some (m,o')) (other : j ≠ i) : m ≠ n := by
  intro same
  subst same
  obtain rfl := Option.some.inj ((owned.reach i m o here).symm.trans (owned.reach j m o' there))
  exact other (owned.apart j i m m o there here)

variable [DecidableEq ι]

/-- An owner forgets what it had when it gets a new object, which must not be listed. -/
theorem Owned.assign (owned : Owned listed t holds) (free : t n = none)
    (new : ∀ j m, holds j ≠ some (m,o)) (unlisted : ∀ m o', holds i = some (m,o') → ¬ listed o') :
    Owned listed (t.assign n o) (Function.update holds i (some (n,o))) := by
  refine ⟨fun j m o' held => ?_,fun j k l m o' first second => ?_,fun m o' kind there => ?_⟩
  · by_cases same : j = i
    · subst same
      rw [Function.update_self] at held
      cases held
      exact assign_self ..
    · rw [Function.update_of_ne same] at held
      have taken := owned.reach j m o' held
      have apart : m ≠ n := by
        intro same
        rw [same,free] at taken
        cases taken
      unfold Table.assign
      rwa [Function.update_of_ne apart]
  · by_cases one : j = i <;> by_cases two : k = i
    · exact one.trans two.symm
    · subst one
      rw [Function.update_self] at first
      rw [Function.update_of_ne two] at second
      cases first
      exact absurd second (new k m)
    · subst two
      rw [Function.update_self] at second
      rw [Function.update_of_ne one] at first
      cases second
      exact absurd first (new j l)
    · rw [Function.update_of_ne one] at first
      rw [Function.update_of_ne two] at second
      exact owned.apart j k l m o' first second
  · unfold Table.assign at there
    by_cases same : m = n
    · subst same
      rw [Function.update_self] at there
      cases there
      exact ⟨i,Function.update_self ..⟩
    · rw [Function.update_of_ne same] at there
      obtain ⟨j,held⟩ := owned.owner m o' kind there
      have other : j ≠ i := by
        intro same
        exact unlisted m o' (same ▸ held) kind
      exact ⟨j,by rwa [Function.update_of_ne other]⟩

theorem held_before {j : ι} {x : Nat × O} (after : Function.update holds i none j = some x) :
    j ≠ i ∧ holds j = some x := by
  by_cases same : j = i
  · subst same
    rw [Function.update_self] at after
    cases after
  · exact ⟨same,by rwa [Function.update_of_ne same] at after⟩

theorem Owned.release (owned : Owned listed t holds) (held : holds i = some (n,o)) :
    Owned listed (t.release n) (Function.update holds i none) := by
  refine ⟨fun j m o' after => ?_,fun j k l m o' first second => ?_,fun m o' kind there => ?_⟩
  · obtain ⟨other,there⟩ := held_before after
    unfold Table.release
    rw [Function.update_of_ne (owned.other_number held there other)]
    exact owned.reach j m o' there
  · exact owned.apart j k l m o' (held_before first).2 (held_before second).2
  · have apart : m ≠ n := by
      intro same
      subst same
      rw [release_self] at there
      cases there
    unfold Table.release at there
    rw [Function.update_of_ne apart] at there
    obtain ⟨j,owns⟩ := owned.owner m o' kind there
    have other : j ≠ i := by
      intro same
      subst same
      exact apart (congrArg Prod.fst (Option.some.inj (owns.symm.trans held)))
    exact ⟨j,by rwa [Function.update_of_ne other]⟩

/-- What an owner holds that is not listed, it may also lose sight of. -/
theorem Owned.forget (owned : Owned listed t holds)
    (unlisted : ∀ m o', holds i = some (m,o') → ¬ listed o') :
    Owned listed t (Function.update holds i none) := by
  refine ⟨fun j m o' after => owned.reach j m o' (held_before after).2,fun j k l m o' first second =>
    owned.apart j k l m o' (held_before first).2 (held_before second).2,fun m o' kind there => ?_⟩
  obtain ⟨j,owns⟩ := owned.owner m o' kind there
  have other : j ≠ i := by
    intro same
    exact unlisted m o' (same ▸ owns) kind
  exact ⟨j,by rwa [Function.update_of_ne other]⟩

end rules

end Handles
