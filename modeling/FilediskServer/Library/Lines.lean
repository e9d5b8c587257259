import Mathlib.Data.List.TakeWhile
import Mathlib.Tactic

/-! The line that starts a stream: up to its first separator, or as much of the stream as there
is room for. -/
namespace Lines
variable {α : Type} {sep : α} {room : Nat} {front rest stream l : List α}

/-- The shortest prefix that ends in the separator, if it has room, and otherwise all that has. -/
inductive IsLine (sep : α) (room : Nat) (stream : List α) : List α → Prop
  | found {front rest : List α} (begins : stream = front ++ sep :: rest) (plain : sep ∉ front)
      (fits : front.length < room) : IsLine sep room stream (front ++ [sep])
  | whole (plain : sep ∉ stream.take room) : IsLine sep room stream (stream.take room)

theorem IsLine.starts (is : IsLine sep room stream l) : l <+: stream := by
  cases is with
  | @found front rest begins =>
    refine ⟨rest,?_⟩
    rw [List.append_assoc]
    exact begins.symm
  | whole => exact List.take_prefix room stream

theorem IsLine.bound (is : IsLine sep room stream l) : l.length ≤ room := by
  cases is with
  | found _ _ fits =>
    rw [List.length_append,List.length_singleton]
    exact fits
  | whole => exact List.length_take_le ..

variable [DecidableEq α]

def line (sep : α) (room : Nat) (stream : List α) : List α :=
  if sep ∈ stream.take room then (stream.take room).takeWhile (· ≠ sep) ++ [sep] else stream.take room

theorem line_found (plain : sep ∉ front) (fits : front.length < room) :
    line sep room (front ++ sep :: rest) = front ++ [sep] := by
  obtain ⟨n,rfl⟩ : ∃ n, room = front.length + 1 + n := ⟨room - (front.length + 1),by omega⟩
  have start : (front ++ sep :: rest).take (front.length + 1 + n) = front ++ sep :: rest.take n := by
    rw [Nat.add_assoc,List.take_length_add_append,Nat.add_comm 1 n,List.take_succ_cons]
  have before : (front ++ sep :: rest.take n).takeWhile (· ≠ sep) = front := by
    rw [List.takeWhile_append_of_pos fun x member => by
      have other : x ≠ sep := fun same => plain (same ▸ member)
      simpa using other]
    simp
  unfold line
  rw [start,if_pos (by simp),before]

theorem line_whole (plain : sep ∉ stream.take room) : line sep room stream = stream.take room :=
  if_neg plain

theorem isLine_line (sep : α) (room : Nat) (stream : List α) : IsLine sep room stream (line sep room stream) := by
  by_cases inside : sep ∈ stream.take room
  · obtain ⟨front,rest,start,plain⟩ := List.eq_append_cons_of_mem inside
    have begins : stream = front ++ sep :: (rest ++ stream.drop room) := by
      rw [← List.cons_append,← List.append_assoc,← start,List.take_append_drop]
    have size := congrArg List.length start
    rw [List.length_take,List.length_append,List.length_cons] at size
    have fits : front.length < room := by omega
    have same : line sep room stream = front ++ [sep] := by
      rw [begins]
      exact line_found plain fits
    rw [same]
    exact .found begins plain fits
  · rw [line_whole inside]
    exact .whole inside

theorem IsLine.eq_line (is : IsLine sep room stream l) : l = line sep room stream := by
  cases is with
  | found begins plain fits =>
    rw [begins]
    exact (line_found plain fits).symm
  | whole plain => exact (line_whole plain).symm

/-- What a search for the separator has found. -/
theorem first_found {idx : Nat} (found : l.findIdx? (· == sep) = some idx) :
    ∃ front rest, l = front ++ sep :: rest ∧ front.length = idx ∧ sep ∉ front := by
  obtain ⟨bound,is,first⟩ := List.findIdx?_eq_some_iff_getElem.mp found
  have same : l[idx] = sep := by simpa using is
  refine ⟨l.take idx,l.drop (idx + 1),?_,List.length_take_of_le bound.le,fun member => ?_⟩
  · rw [← same,← List.drop_eq_getElem_cons bound,List.take_append_drop]
  · obtain ⟨i,less,here⟩ := List.getElem_of_mem member
    rw [List.length_take] at less
    rw [List.getElem_take] at here
    exact first i (by omega) (by simpa using here)

theorem none_found (found : l.findIdx? (· == sep) = none) : sep ∉ l := fun member => by
  have other := List.findIdx?_eq_none_iff.mp found sep member
  simp at other

end Lines
