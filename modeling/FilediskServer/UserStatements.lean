import FilediskServer.UserSign
import FilediskServer.Library.SqlText

/-! The statements of the login service as MySQL reads them. The names, salts and digests stand
between quotes as they are, so a statement carries them only where a literal does. -/
namespace FilediskServer.UserSign
open Bytes CusInfo Redis Utility SqlText

def SignUp.statement (username salt encpwd : Bytes) : List Token :=
  [.word (ascii "insert"),.word (ascii "into"),.word (ascii "user"),.symbol 40,.word (ascii "username"),
    .symbol 44,.word (ascii "salt"),.symbol 44,.word (ascii "encpwd"),.symbol 41,.word (ascii "values"),
    .symbol 40] ++ [.text username,.symbol 44,.text salt,.symbol 44,.text encpwd,.symbol 41,.symbol 59]

def SignIn.statement (username : Bytes) : List Token :=
  [.word (ascii "select"),.symbol 42,.word (ascii "from"),.word (ascii "user"),.word (ascii "where"),
    .word (ascii "username"),.symbol 61] ++ [.text username,.symbol 59]

theorem run_separator (b : Bytes) :
    run (.literal b) (ascii "','") = ([.text b,.symbol 44],.literal []) := rfl

/-- Between two operands. -/
theorem tokensFrom_operand {b : Bytes} (plain : carried b = true) (t : Bytes) :
    tokensFrom (.literal []) (b ++ (ascii "','" ++ t)) =
      (tokensFrom (.literal []) t).map ([.text b,.symbol 44] ++ ·) := by
  rw [tokensFrom_through (run_carried plain []),List.nil_append,tokensFrom_through (run_separator b),
    Option.map_map]
  rfl

theorem carried_of_operand {b t : Bytes} {x : UInt8} {ts : List Token} (other : x ≠ quote)
    (read : tokensFrom (.literal []) (b ++ (ascii "','" ++ x :: t)) = some (.text b :: .symbol 44 :: ts)) :
    carried b = true := by
  obtain ⟨after,back⟩ := run_of_tokensFrom read
  refine @carried_of_text b (quote :: x :: t) 44 after (by decide) (by decide) ?_ back
  intro held v after closed
  rw [run_quiet (next_quote held),run,next,if_neg other] at closed
  exact (Token.text.inj (List.cons.inj closed).1).symm

theorem carried_of_last {b t : Bytes} {c : UInt8} {t' : Token} {ts : List Token} (ends : c ≠ quote)
    (escapes : c ≠ backslash) (plain : quote ∉ t)
    (read : tokensFrom (.literal []) (b ++ quote :: c :: t) = some (.text b :: t' :: ts)) :
    carried b = true := by
  obtain ⟨after,back⟩ := run_of_tokensFrom read
  refine carried_of_text ends escapes (fun held v after closed => ?_) back
  rw [(run_open plain (show (Mode.literal held).Open from trivial)).1] at closed
  cases closed

theorem salt_free {rand : Fin 16 → Nat} {b : UInt8} (inside : b ∈ genSalt rand) :
    b ≠ quote ∧ b ≠ backslash := by
  have plain : ∀ b ∈ charset, b ≠ quote ∧ b ≠ backslash := by decide +kernel
  exact plain b (mem_charset_of_genSalt inside)

theorem carried_salt (rand : Fin 16 → Nat) : carried (genSalt rand) = true :=
  carried_of_free (fun inside => (salt_free inside).1 rfl) fun inside => (salt_free inside).2 rfl

theorem salt_head (rand : Fin 16 → Nat) : ∃ x rest, genSalt rand = x :: rest ∧ x ≠ quote := by
  obtain ⟨x,rest,shape⟩ := List.exists_cons_of_length_pos (by rw [length_genSalt rand]; decide)
  exact ⟨x,rest,shape,(salt_free (shape ▸ List.mem_cons_self)).1⟩

theorem tokensFrom_operands {b c : Bytes} (first : carried b = true) (second : carried c = true) (t : Bytes) :
    tokensFrom (.literal []) (b ++ (ascii "','" ++ (c ++ (ascii "','" ++ t)))) =
      (tokensFrom (.literal []) t).map ([.text b,.symbol 44,.text c,.symbol 44] ++ ·) := by
  rw [tokensFrom_operand first,tokensFrom_operand second,Option.map_map]
  rfl

/-- The statements up to the quote before their first operand. -/
theorem tokens_signUp (md5 : Bytes → Digest) (request : UserSign) (salt : Bytes) :
    tokens (SignUp.sql md5 request salt) = (tokensFrom (.literal []) (request.username ++ (ascii "','" ++
      (salt ++ (ascii "','" ++ ((md5 (request.password ++ salt)).bytes ++ ascii "');")))))).map
        ((SignUp.statement [] [] []).take 12 ++ ·) := by
  have head : run .between (ascii "insert into user(username,salt,encpwd) values ('") =
      ((SignUp.statement [] [] []).take 12,.literal []) := by decide +kernel
  rw [← tokensFrom_through head]
  simp only [tokens,SignUp.sql,List.append_assoc]

theorem tokens_signIn (request : UserSign) : tokens (SignIn.sql request) =
    (tokensFrom (.literal []) (request.username ++ ascii "';")).map ((SignIn.statement []).take 7 ++ ·) := by
  have head : run .between (ascii "select * from user where username='") =
      ((SignIn.statement []).take 7,.literal []) := by decide +kernel
  rw [← tokensFrom_through head]
  simp only [tokens,SignIn.sql,List.append_assoc]

/-- The statement of `SignUp` is read as it was meant just when its name and its digest are
carried by their literals. -/
theorem signUp_statement_iff (md5 : Bytes → Digest) (request : UserSign) (rand : Fin 16 → Nat) :
    tokens (SignUp.sql md5 request (genSalt rand)) = some (SignUp.statement request.username (genSalt rand)
      (md5 (request.password ++ genSalt rand)).bytes) ↔
    carried request.username = true ∧ carried (md5 (request.password ++ genSalt rand)).bytes = true := by
  rw [tokens_signUp]
  generalize (md5 (request.password ++ genSalt rand)).bytes = d
  have whole : SignUp.statement request.username (genSalt rand) d = (SignUp.statement [] [] []).take 12 ++
      [.text request.username,.symbol 44,.text (genSalt rand),.symbol 44,.text d,.symbol 41,.symbol 59] := by
    simp only [SignUp.statement,List.cons_append,List.nil_append,List.take_succ_cons,List.take_zero]
  rw [whole,map_append_eq_some]
  constructor
  · intro read
    have name : carried request.username = true := by
      obtain ⟨x,rest,shape,other⟩ := salt_head rand
      rw [shape] at read
      exact carried_of_operand other read
    rw [tokensFrom_operands name (carried_salt rand)] at read
    have last := (@map_append_eq_some [.text request.username,.symbol 44,.text (genSalt rand),.symbol 44]
      [.text d,.symbol 41,.symbol 59] _).mp read
    exact ⟨name,carried_of_last (by decide) (by decide) (by decide) last⟩
  · rintro ⟨name,plain⟩
    rw [tokensFrom_operands name (carried_salt rand),tokensFrom_through (run_carried plain [])]
    rfl

theorem signIn_statement_iff (request : UserSign) :
    tokens (SignIn.sql request) = some (SignIn.statement request.username) ↔
      carried request.username = true := by
  have whole : SignIn.statement request.username = (SignIn.statement []).take 7 ++
      [.text request.username,.symbol 59] := by
    simp only [SignIn.statement,List.cons_append,List.nil_append,List.take_succ_cons,List.take_zero]
  rw [tokens_signIn,whole,map_append_eq_some]
  constructor
  · exact carried_of_last (t := []) (by decide) (by decide) List.not_mem_nil
  · intro plain
    rw [tokensFrom_through (run_carried plain [])]
    rfl

/-- What both statements say, for a name and a digest, exactly when literals carry these. -/
theorem statements_carry_iff (md5 : Bytes → Digest) (request : UserSign) (rand : Fin 16 → Nat) :
    (tokens (SignUp.sql md5 request (genSalt rand)) = some (SignUp.statement request.username
        (genSalt rand) (md5 (request.password ++ genSalt rand)).bytes) ∧
      tokens (SignIn.sql request) = some (SignIn.statement request.username)) ↔
    carried request.username = true ∧ carried (md5 (request.password ++ genSalt rand)).bytes = true := by
  rw [signUp_statement_iff,signIn_statement_iff]
  exact and_iff_left_of_imp And.left

/-- The quote of a name ends its literal. -/
theorem name_with_quote : ¬ ∀ (md5 : Bytes → Digest) (request : UserSign) (rand : Fin 16 → Nat),
    tokens (SignUp.sql md5 request (genSalt rand)) = some (SignUp.statement request.username
        (genSalt rand) (md5 (request.password ++ genSalt rand)).bytes) ∧
      tokens (SignIn.sql request) = some (SignIn.statement request.username) := by
  intro claim
  have read := (claim (fun _ _ => 0) ⟨ascii "o'neill",ascii "p"⟩ fun _ => 0).2
  have plain := (signIn_statement_iff _).mp read
  exact absurd plain (by decide)

end FilediskServer.UserSign
