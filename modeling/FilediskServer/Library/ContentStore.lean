import Mathlib.Data.Set.Insert
import Mathlib.Logic.Relation

/-! A store of contents that go by a key computed from them, and of records that name a key. It
takes in any content, and a record once there is a content for its key; nothing is taken out. -/
namespace ContentStore
variable {Key Content Record : Type}

structure Naming (Key Content Record : Type) where
  key : Content → Key
  names : Record → Key

@[ext] structure Store (Content Record : Type) where
  contents : Set Content
  records : List Record

def Naming.get (N : Naming Key Content Record) (s : Store Content Record) (k : Key) : Set Content :=
  {c ∈ s.contents | N.key c = k}

inductive Step (N : Naming Key Content Record) (s : Store Content Record) : Store Content Record → Prop
  | put (c : Content) : Step N s {s with contents := insert c s.contents}
  | link (r : Record) (present : (N.get s (N.names r)).Nonempty) : Step N s {s with records := s.records ++ [r]}

abbrev Run (N : Naming Key Content Record) : Store Content Record → Store Content Record → Prop :=
  Relation.ReflTransGen (Step N)

variable {N : Naming Key Content Record} {s s' : Store Content Record}

theorem get_mono (more : s.contents ⊆ s'.contents) (k : Key) : N.get s k ⊆ N.get s' k :=
  fun _ found => ⟨more found.1,found.2⟩

theorem step_grows (step : Step N s s') : s.contents ⊆ s'.contents ∧ s.records <+: s'.records := by
  cases step with
  | put c => exact ⟨Set.subset_insert c _,List.prefix_refl _⟩
  | link r => exact ⟨subset_rfl,List.prefix_append _ _⟩

theorem run_grows (run : Run N s s') : s.contents ⊆ s'.contents ∧ s.records <+: s'.records := by
  induction run with
  | refl => exact ⟨subset_rfl,List.prefix_refl _⟩
  | tail _ step ih =>
    have last := step_grows step
    exact ⟨ih.1.trans last.1,ih.2.trans last.2⟩

/-- Where no two contents have one key, a record names one content for good. -/
theorem run_get (injective : Set.InjOn N.key s'.contents) (run : Run N s s') {c : Content} {k : Key}
    (found : c ∈ N.get s k) : N.get s' k = {c} := by
  have later := get_mono (run_grows run).1 k found
  refine Set.eq_singleton_iff_unique_mem.mpr ⟨later,fun other there => ?_⟩
  exact injective there.1 later.1 (there.2.trans later.2.symm)

end ContentStore
