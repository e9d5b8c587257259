import FilediskServer.UserStatements
import FilediskServer.Mysql

/-! Accounts from sign-up to sign-in: what MySQL stores and returns, which passwords are
accepted, and the sessions that the two services start. -/
namespace FilediskServer.UserSign
open Bytes CusInfo Redis Utility SqlText Mysql

def cursorOf (idType : DataType) (status : Status) (insertId : UInt64) (affectedRows : Nat) (row : UserRow) :
    Cursor :=
  ⟨status == .ok,insertId,affectedRows,idType,row⟩

/-- The row that `SignUp` stores. -/
def account (md5 : Bytes → Digest) (id : UInt64) (request : UserSign) (salt : Bytes) : UserRow :=
  ⟨id,request.username,salt,(md5 (request.password ++ salt)).bytes⟩

/-- MySQL on the statements of the login service: it may refuse them, and stores and returns the
columns as they are, whatever the type of `id` is. -/
inductive Executes (table : List UserRow) (text : Bytes) : Cursor → List UserRow → Prop
  | inserted {username salt encpwd : Bytes} {id : UInt64}
      (read : tokens text = some (SignUp.statement username salt encpwd))
      (unique : ∀ row ∈ table, row.username ≠ username) (unused : ∀ row ∈ table, row.userid ≠ id)
      (idType : DataType) (row : UserRow) :
      Executes table text (cursorOf idType .ok id 1 row) (table ++ [⟨id,username,salt,encpwd⟩])
  | selected {username : Bytes} {row : UserRow} (read : tokens text = some (SignIn.statement username))
      (here : row ∈ table) (named : row.username = username) (idType : DataType) (insertId : UInt64)
      (affectedRows : Nat) : Executes table text (cursorOf idType .getResult insertId affectedRows row) table
  | nothing {username : Bytes} (read : tokens text = some (SignIn.statement username))
      (unknown : ∀ row ∈ table, row.username ≠ username) (idType : DataType) (insertId : UInt64)
      (affectedRows : Nat) (row : UserRow) :
      Executes table text (cursorOf idType .getResult insertId affectedRows row) table
  | refused (idType : DataType) (insertId : UInt64) (affectedRows : Nat) (row : UserRow) :
      Executes table text (cursorOf idType .error insertId affectedRows row) table

/-- The loop over the 16 bytes compares the digests. -/
theorem flag_iff (d d' : Digest) :
    ((List.finRange 16).all fun i => d i == d'.bytes.getD i 0) = true ↔ d = d' := by
  have stored (i : Fin 16) : d'.bytes.getD i 0 = d' i := by
    rw [Digest.bytes,List.getD_eq_getElem?_getD,List.getElem?_ofFn,dif_pos i.isLt]
    rfl
  constructor
  · intro flag
    funext i
    have same := List.all_eq_true.mp flag i (List.mem_finRange i)
    rw [stored] at same
    exact eq_of_beq same
  · rintro rfl
    exact List.all_eq_true.mpr fun i _ => by rw [stored]; exact beq_self_eq_true _

section accepts
variable {md5 : Bytes → Digest} {id insertId : UInt64} {request : UserSign} {salt password uuid : Bytes}
  {idType : DataType} {status : Status} {affectedRows : Nat}

theorem callback_account : SignIn.callback md5 password
    (cursorOf idType status insertId affectedRows (account md5 id request salt)) uuid =
    if status = .ok ∧ 0 < affectedRows ∧ md5 (password ++ salt) = md5 (request.password ++ salt) then
      (some (redisSessionTask uuid (idType.asUlonglong id) request.username),⟨0,ascii "ok!",uuid⟩)
    else (none,⟨-1,ascii "login error username",[]⟩) := by
  have flag := flag_iff (md5 (password ++ salt)) (md5 (request.password ++ salt))
  have shown : (cursorOf idType status insertId affectedRows (account md5 id request salt)).ok = true ↔
      status = .ok := beq_iff_eq
  rw [show SignIn.callback md5 password _ uuid = ite _ (ite _ _ _) _ from
    if_congr (and_congr_left' shown) (if_congr flag rfl rfl) rfl,← ite_and]
  exact if_congr and_assoc rfl rfl

/-- A password is accepted just when its digest is the stored one. -/
theorem signIn_accepts_iff (md5 : Bytes → Digest) (id : UInt64) (request : UserSign)
    (salt password : Bytes) (idType : DataType) (status : Status) (insertId : UInt64) (affectedRows : Nat)
    (uuid : Bytes) :
    let answer := SignIn.callback md5 password
      (cursorOf idType status insertId affectedRows (account md5 id request salt)) uuid
    let right := status = .ok ∧ 0 < affectedRows ∧ md5 (password ++ salt) = md5 (request.password ++ salt)
    (right → answer =
      (some (redisSessionTask uuid (idType.asUlonglong id) request.username),⟨0,ascii "ok!",uuid⟩)) ∧
    (¬ right → answer = (none,⟨-1,ascii "login error username",[]⟩)) ∧
    (Set.InjOn md5 {password ++ salt,request.password ++ salt} → answer.2.code = 0 →
      password = request.password) := by
  dsimp only
  rw [callback_account]
  refine ⟨fun right => if_pos right,fun wrong => if_neg wrong,fun injective accepted => ?_⟩
  split_ifs at accepted with right
  · exact List.append_cancel_right (injective (.inl rfl) (.inr rfl) right.2.2)
  · cases accepted

end accepts

def sampleAnn : UserSign := ⟨ascii "ann",ascii "p"⟩

def constantMd5 : Bytes → Digest := fun _ _ => 65

theorem session_injective {uuid : Bytes} {userid userid' : UInt64} {name name' : Bytes} :
    redisSessionTask uuid userid name = redisSessionTask uuid userid' name' ↔ name = name' ∧ userid = userid' := by
  constructor
  · intro same
    obtain ⟨_,fields⟩ := Command.hmset.inj same
    obtain ⟨username,number⟩ := List.cons.inj fields
    have digits : decimal userid.toNat = decimal userid'.toNat := (Prod.mk.inj (List.cons.inj number).1).2
    have read := congrArg stoull digits
    rw [stoull_decimal,stoull_decimal] at read
    exact ⟨(Prod.mk.inj username).2,Except.ok.inj read⟩
  · rintro ⟨rfl,rfl⟩
    rfl

/-- The sessions of sign-up and sign-in agree just when the name that was initialised by itself
is the requested one and the id is read as it is stored. -/
theorem sessions_agree_iff {md5 : Bytes → Digest} {id : UInt64} {request : UserSign}
    {salt password name uuid uuid' : Bytes} {row : UserRow} {idType idType' : DataType} {status : Status}
    {insertId : UInt64} {inserted affectedRows : Nat}
    (success : (SignIn.callback md5 password
      (cursorOf idType status insertId affectedRows (account md5 id request salt)) uuid').2.code = 0) :
    ((SignUp.callback (cursorOf idType' .ok id inserted row) name uuid).1 =
        some (redisSessionTask uuid id request.username) ∧
      (SignIn.callback md5 password
        (cursorOf idType status insertId affectedRows (account md5 id request salt)) uuid').1 =
        some (redisSessionTask uuid' id request.username)) ↔
      name = request.username ∧ (idType = .longlong ∨ id = -1) := by
  have first : (SignUp.callback (cursorOf idType' .ok id inserted row) name uuid).1 =
      some (redisSessionTask uuid id name) := rfl
  have later : (SignIn.callback md5 password
      (cursorOf idType status insertId affectedRows (account md5 id request salt)) uuid').1 =
      some (redisSessionTask uuid' (idType.asUlonglong id) request.username) := by
    rw [callback_account] at success ⊢
    split_ifs at success ⊢
    · rfl
    · cases success
  rw [first,later,Option.some_inj,Option.some_inj,session_injective,session_injective,
    DataType.asUlonglong_eq_iff]
  simp only [and_true,true_and]

/-- The column `id` would have to be BIGINT. -/
theorem sample_sessions_agree : ∃ status affectedRows,
    ((SignUp.callback (cursorOf .longlong .ok 7 1 ⟨0,[],[],[]⟩) (ascii "ann") sampleUuid).1 =
        some (redisSessionTask sampleUuid 7 (ascii "ann")) ∧
      (SignIn.callback constantMd5 (ascii "p") (cursorOf .longlong status 0 affectedRows
        (account constantMd5 7 sampleAnn (genSalt fun _ => 0))) sampleUuid).1 =
        some (redisSessionTask sampleUuid 7 (ascii "ann"))) ↔
      ascii "ann" = ascii "ann" ∧ (DataType.longlong = .longlong ∨ (7 : UInt64) = -1) :=
  ⟨.ok,1,@sessions_agree_iff constantMd5 7 sampleAnn (genSalt fun _ => 0) (ascii "p") (ascii "ann")
    sampleUuid sampleUuid ⟨0,[],[],[]⟩ .longlong .longlong .ok 0 1 1 (by decide +kernel)⟩

/-- The session of `SignUp` has whatever the name held before, and that of `SignIn` the user -1. -/
theorem name_lost : ¬ ∀ (md5 : Bytes → Digest) (id : UInt64) (request : UserSign)
    (salt password name uuid uuid' : Bytes) (row : UserRow) (idType : DataType) (status : Status)
    (affectedRows : Nat),
    (SignIn.callback md5 password
      (cursorOf idType status 0 affectedRows (account md5 id request salt)) uuid').2.code = 0 →
    (SignUp.callback (cursorOf idType .ok id 1 row) name uuid).1 =
        some (redisSessionTask uuid id request.username) ∧
      (SignIn.callback md5 password
        (cursorOf idType status 0 affectedRows (account md5 id request salt)) uuid').1 =
        some (redisSessionTask uuid' id request.username) := by
  intro claim
  have success : (SignIn.callback constantMd5 (ascii "p") (cursorOf .long .ok 0 1
      (account constantMd5 7 sampleAnn (genSalt fun _ => 0))) sampleUuid).2.code = 0 := by decide +kernel
  obtain ⟨first,later⟩ := claim _ _ _ _ _ [] sampleUuid _ ⟨0,[],[],[]⟩ _ _ _ success
  have named : [] = ascii "ann" := (session_injective.mp (Option.some.inj first)).1
  have read : some (redisSessionTask sampleUuid (-1) (ascii "ann")) = _ := later
  have number : (-1 : UInt64) = 7 := (session_injective.mp (Option.some.inj read)).2
  exact absurd (And.intro named number) (by decide)

/-! Whoever signed up. -/

section signed
variable {md5 : Bytes → Digest} {request : UserSign} {rand : Fin 16 → Nat}
  {table table' : List UserRow} {cursor : Cursor} {name uuid : Bytes}

theorem statements_differ (username salt encpwd name : Bytes) :
    SignUp.statement username salt encpwd ≠ SignIn.statement name := by
  intro same
  have verb : Token.word (ascii "insert") = .word (ascii "select") := (List.cons.inj same).1
  exact absurd verb (by decide)

/-- A sign-up that is answered by code 0 has stored its account. -/
theorem account_stored (carries : tokens (SignUp.sql md5 request (genSalt rand)) =
      some (SignUp.statement request.username (genSalt rand) (md5 (request.password ++ genSalt rand)).bytes))
    (executed : Executes table (SignUp.sql md5 request (genSalt rand)) cursor table')
    (signed : (SignUp.callback cursor name uuid).2.code = 0) :
    ∃ id, table' = table ++ [account md5 id request (genSalt rand)] := by
  cases executed with
  | @inserted username salt encpwd id read _ _ _ row =>
    have same := Option.some.inj (carries.symm.trans read)
    simp only [SignUp.statement,List.append_cancel_left_eq,List.cons.injEq,Token.text.injEq] at same
    obtain ⟨rfl,_,rfl,_,rfl,_⟩ := same
    exact ⟨id,rfl⟩
  | selected read | nothing read =>
    exact absurd (Option.some.inj (carries.symm.trans read)) (statements_differ _ _ _ _)
  | refused => cases signed

/-- A select is answered by a result set or an error. -/
theorem signIn_refused (carries : tokens (SignIn.sql request) = some (SignIn.statement request.username))
    (executed : Executes table (SignIn.sql request) cursor table') :
    (SignIn.callback md5 request.password cursor uuid).2.code = -1 := by
  have closed : cursor.ok = false := by
    cases executed with
    | inserted read => exact absurd (Option.some.inj (read.symm.trans carries)) (statements_differ _ _ _ _)
    | selected | nothing | refused => rfl
  rw [SignIn.callback,if_neg fun all => by simp [closed] at all]

end signed

/-- Whoever signed up is refused, whatever MySQL answers while it has the account. -/
theorem never_signs_in (md5 : Bytes → Digest) (request : UserSign) (rand : Fin 16 → Nat)
    (table : List UserRow) (quotes : quote ∉ request.username) (escapes : backslash ∉ request.username)
    (digestQuotes : quote ∉ (md5 (request.password ++ genSalt rand)).bytes)
    (digestEscapes : backslash ∉ (md5 (request.password ++ genSalt rand)).bytes) :
    ∀ cursor table' name uuid, Executes table (SignUp.sql md5 request (genSalt rand)) cursor table' →
      (SignUp.callback cursor name uuid).2.code = 0 →
      ∃ id, table' = table ++ [account md5 id request (genSalt rand)] ∧
        ∀ later, account md5 id request (genSalt rand) ∈ later →
          (∃ cursor, Executes later (SignIn.sql request) cursor later ∧
            cursor.row = account md5 id request (genSalt rand)) ∧
          ∀ cursor after uuid, Executes later (SignIn.sql request) cursor after →
            (SignIn.callback md5 request.password cursor uuid).2.code = -1 := by
  intro cursor table' name uuid executed signed
  have plain := carried_of_free quotes escapes
  have insert := (signUp_statement_iff md5 request rand).mpr
    ⟨plain,carried_of_free digestQuotes digestEscapes⟩
  have select := (signIn_statement_iff request).mpr plain
  obtain ⟨id,stored⟩ := account_stored insert executed signed
  refine ⟨id,stored,fun later here => ⟨?_,fun cursor after uuid executed => ?_⟩⟩
  · exact ⟨_,.selected select here rfl .long 0 0,rfl⟩
  · exact signIn_refused select executed

theorem sample_signs_up : ∃ cursor, Executes [] (SignUp.sql constantMd5 sampleAnn (genSalt fun _ => 0))
    cursor [account constantMd5 1 sampleAnn (genSalt fun _ => 0)] ∧
    (SignUp.callback cursor [] sampleUuid).2.code = 0 := by
  have insert := (signUp_statement_iff constantMd5 sampleAnn fun _ => 0).mpr (by decide +kernel)
  exact ⟨_,@Executes.inserted [] _ _ _ _ 1 insert (by simp) (by simp) .long ⟨0,[],[],[]⟩,rfl⟩

theorem sample_never_signs_in : ∃ cursor table',
    Executes [] (SignUp.sql constantMd5 sampleAnn (genSalt fun _ => 0)) cursor table' ∧
    (SignUp.callback cursor [] sampleUuid).2.code = 0 ∧
    ∃ id, table' = [] ++ [account constantMd5 id sampleAnn (genSalt fun _ => 0)] ∧
      ∀ later, account constantMd5 id sampleAnn (genSalt fun _ => 0) ∈ later →
        (∃ cursor, Executes later (SignIn.sql sampleAnn) cursor later ∧
          cursor.row = account constantMd5 id sampleAnn (genSalt fun _ => 0)) ∧
        ∀ cursor after uuid, Executes later (SignIn.sql sampleAnn) cursor after →
          (SignIn.callback constantMd5 sampleAnn.password cursor uuid).2.code = -1 := by
  obtain ⟨cursor,executed,signed⟩ := sample_signs_up
  exact ⟨cursor,_,executed,signed,never_signs_in constantMd5 sampleAnn (fun _ => 0) []
    (by decide) (by decide) (by decide +kernel) (by decide +kernel) cursor _ [] sampleUuid executed signed⟩

/-- Ann has an account, and MySQL returns it. -/
theorem signed_up_refused : ¬ ∀ (md5 : Bytes → Digest) (request : UserSign) (rand : Fin 16 → Nat)
    (table table' after : List UserRow) (cursor cursor' : Cursor) (name uuid uuid' : Bytes),
    quote ∉ request.username → backslash ∉ request.username →
    quote ∉ (md5 (request.password ++ genSalt rand)).bytes →
    backslash ∉ (md5 (request.password ++ genSalt rand)).bytes →
    Executes table (SignUp.sql md5 request (genSalt rand)) cursor table' →
    (SignUp.callback cursor name uuid).2.code = 0 →
    Executes table' (SignIn.sql request) cursor' after → cursor'.row ∈ table' →
    (SignIn.callback md5 request.password cursor' uuid').2.code = 0 := by
  intro claim
  obtain ⟨cursor,executed,signed⟩ := sample_signs_up
  have select := (signIn_statement_iff sampleAnn).mpr (by decide)
  have accepted := claim constantMd5 sampleAnn (fun _ => 0) [] _ _ cursor _ [] sampleUuid sampleUuid
    (by decide) (by decide) (by decide +kernel) (by decide +kernel) executed signed
    (.selected select List.mem_cons_self rfl .long 0 0) List.mem_cons_self
  exact absurd accepted (by decide +kernel)

end FilediskServer.UserSign
