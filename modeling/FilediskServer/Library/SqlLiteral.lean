import FilediskServer.Library.SqlText

/-! String literals of SQL in either kind of quotes, which MySQL reads alike. A doubled quote and an
escape stand for one byte, and the quote that opened the literal ends it. -/
namespace SqlText
open Bytes
variable {q : UInt8} {b v rest : Bytes}

def doubleQuote : UInt8 := 34

/-- What a literal is read as behind the quote that opens it, and what is left behind it. -/
def readLiteral (q : UInt8) : Bytes → Option (Bytes × Bytes)
  | [] => none
  | [b] => if b = q then some ([],[]) else none
  | b :: c :: rest =>
    if b = q then
      if c = q then (readLiteral q rest).map fun x => (q :: x.1,x.2) else some ([],c :: rest)
    else if b = backslash then (readLiteral q rest).map fun x => (escaped c ++ x.1,x.2)
    else (readLiteral q (c :: rest)).map fun x => (b :: x.1,x.2)

/-- Bytes without that quote and without a backslash are read as they are. -/
theorem readLiteral_plain (quotes : q ∉ b) (escapes : backslash ∉ b) (ends : rest.head? ≠ some q) :
    readLiteral q (b ++ q :: rest) = some (b,rest) := by
  induction b with
  | nil =>
    cases rest with
    | nil => exact if_pos rfl
    | cons c rest =>
      have other : c ≠ q := by simpa using ends
      rw [List.nil_append,readLiteral,if_pos rfl,if_neg other]
  | cons x b ih =>
    rw [List.mem_cons,not_or] at quotes escapes
    obtain ⟨notQuote,quotes⟩ := quotes
    obtain ⟨notEscape,escapes⟩ := escapes
    obtain ⟨c,t,shape⟩ : ∃ c t, b ++ q :: rest = c :: t := List.exists_cons_of_ne_nil (by simp)
    have next := ih quotes escapes
    rw [shape] at next
    rw [List.cons_append,shape,readLiteral,if_neg (Ne.symm notQuote),if_neg (Ne.symm notEscape),next]
    rfl

theorem next_doubled (read : Bytes) : next (.quoted read) quote = ([],.literal (read ++ [quote])) := rfl

/-- In single quotes it is read as the literals of a whole text are. -/
theorem run_readLiteral (found : readLiteral quote b = some (v,rest)) (read : Bytes) :
    run (.literal read) b = run (.quoted (read ++ v)) rest := by
  induction b using readLiteral.induct quote generalizing read v with
  | case1 => cases found
  | case2 =>
    rw [readLiteral,if_pos rfl] at found
    cases found
    rw [run_quiet (next_quote read),List.append_nil]
  | case3 b other =>
    rw [readLiteral,if_neg other] at found
    cases found
  | case4 rest' ih =>
    rw [readLiteral,if_pos rfl,if_pos rfl] at found
    obtain ⟨⟨v,t⟩,inner,same⟩ := Option.map_eq_some_iff.mp found
    cases same
    rw [run_quiet (next_quote read),run_quiet (next_doubled read),ih inner]
    simp
  | case5 c rest' other =>
    rw [readLiteral,if_pos rfl,if_neg other] at found
    cases found
    rw [run_quiet (next_quote read),List.append_nil]
  | case6 c rest' ends ih =>
    rw [readLiteral,if_neg ends,if_pos rfl] at found
    obtain ⟨⟨v,t⟩,inner,same⟩ := Option.map_eq_some_iff.mp found
    cases same
    rw [run_quiet (next_backslash read),run_quiet rfl,ih inner]
    simp
  | case7 b c rest' ends escapes ih =>
    rw [readLiteral,if_neg ends,if_neg escapes] at found
    obtain ⟨⟨v,t⟩,inner,same⟩ := Option.map_eq_some_iff.mp found
    cases same
    rw [run_quiet (next_literal ends escapes read),ih inner]
    simp

end SqlText
