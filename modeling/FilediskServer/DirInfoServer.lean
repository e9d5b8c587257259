import FilediskServer.Downloads
import FilediskServer.Utility

/-! The directory services: each asks Redis for the session of a request and builds its SQL
from the reply. They find the user by position, the TCP server by the field's name. -/
namespace FilediskServer.DirInfoServer
open Interaction Bytes Redis Disk Calls FileTask FileTaskRuns Downloads Utility

/-- `protocol::RedisValue`, as far as the callbacks look into it. -/
inductive RedisValue
  | array (elements : List Bytes)
  | other

/-- The reply to `hgetall`: names and values in turn. -/
def hgetallReply (k : Keyspace) (uuid : Bytes) : RedisValue :=
  match (exec k (.hgetall uuid)).1 with
  | .ok fields => .array (fields.flatMap fun field => [field.1,field.2])
  | .error _ => .other

/-- What a callback goes on with: a statement for MySQL, or a line on the console. An array
that is too short is read past its end. -/
inductive Outcome
  | query (sql : Bytes)
  | printed (text : Bytes)
  | undefined
  deriving DecidableEq

def redisCallback (sql : Bytes → Bytes) : RedisValue → Outcome
  | .array elements =>
    match elements[0]?, elements[1]? with
    | some _username, some userid => .query (sql userid)
    | _, _ => .undefined
  | .other => .printed (ascii "xxxxxxxxx===============xxxxxxxxx redis in queryfile\n")

namespace DirAdd

def sql (dirname : Bytes) (dirid : UInt64) (userid : Bytes) : Bytes :=
  ascii "insert into filetree(userid,filepath,dirid) values(" ++ (userid ++ (ascii "," ++
    dirname ++ decimal dirid.toNat ++ ascii "," ++ ascii ");"))

def redisCallback (dirname : Bytes) (dirid : UInt64) : RedisValue → Outcome :=
  DirInfoServer.redisCallback (sql dirname dirid)

end DirAdd

namespace DirRm

def sql (dirid : UInt64) (userid : Bytes) : Bytes :=
  ascii "update filetree set dirid=-2 where userid= " ++ (userid ++ (ascii "and dirid=" ++
    decimal dirid.toNat ++ ascii ";"))

def redisCallback (dirid : UInt64) : RedisValue → Outcome := DirInfoServer.redisCallback (sql dirid)

end DirRm

namespace DirQuery

def sql (dirid : UInt64) (userid : Bytes) : Bytes :=
  ascii "select (id,filepath as name,index,filesize) from filetree where userid= " ++ (userid ++
    (ascii "and dirid=" ++ decimal dirid.toNat ++ ascii ";"))

def redisCallback (dirid : UInt64) : RedisValue → Outcome := DirInfoServer.redisCallback (sql dirid)

end DirQuery

theorem sql_injective (dirname : Bytes) (dirid : UInt64) : Function.Injective (DirAdd.sql dirname dirid) ∧
    Function.Injective (DirRm.sql dirid) ∧ Function.Injective (DirQuery.sql dirid) :=
  ⟨fun _ _ same => List.append_cancel_right (List.append_cancel_left same),
    fun _ _ same => List.append_cancel_right (List.append_cancel_left same),
    fun _ _ same => List.append_cancel_right (List.append_cancel_left same)⟩

def sessionFields (userid : UInt64) (username : Bytes) : List (Bytes × Bytes) :=
  [(ascii "username",username),(ascii "userid",decimal userid.toNat)]

structure Login where
  uuid : Bytes
  userid : UInt64
  username : Bytes

def storeSession (k : Keyspace) (login : Login) : Keyspace :=
  (exec k (redisSessionTask login.uuid login.userid login.username)).2

def Sessions (k : Keyspace) : Prop :=
  ∀ uuid fields expires, k uuid = some ⟨.hash fields,expires⟩ →
    ∃ userid username, fields = sessionFields userid username

theorem names_differ : ascii "username" ≠ ascii "userid" := by decide

theorem sessionFields_set (old userid : UInt64) (name username : Bytes) :
    (sessionFields userid username).foldl setField (sessionFields old name) =
      sessionFields userid username := by
  simp [sessionFields,setField,names_differ,names_differ.symm]

theorem sessionFields_new (userid : UInt64) (username : Bytes) :
    (sessionFields userid username).foldl setField [] = sessionFields userid username := by
  simp [sessionFields,setField,names_differ]

theorem stored_session {k : Keyspace} (sessions : Sessions k) {login : Login}
    (stored : (exec k (redisSessionTask login.uuid login.userid login.username)).1 = .ok ()) :
    ∃ expires, storeSession k login = Function.update k login.uuid
      (some ⟨.hash (sessionFields login.userid login.username),expires⟩) := by
  change (exec k (.hmset login.uuid (sessionFields login.userid login.username))).1 = .ok () at stored
  change ∃ expires, (exec k (.hmset login.uuid (sessionFields login.userid login.username))).2 = _
  simp only [exec] at stored ⊢
  split at stored
  · exact ⟨false,by rw [sessionFields_new]⟩
  next fields expires held =>
    obtain ⟨old,name,rfl⟩ := sessions _ _ _ held
    exact ⟨expires,by rw [sessionFields_set]⟩
  · cases stored

theorem sessions_store {k : Keyspace} (sessions : Sessions k) (login : Login) :
    Sessions (storeSession k login) := by
  have unchanged (failed : (exec k (redisSessionTask login.uuid login.userid login.username)).1 ≠ .ok ()) :
      storeSession k login = k := by
    simp only [storeSession,redisSessionTask,exec] at failed ⊢
    split at failed <;> simp_all
  by_cases stored : (exec k (redisSessionTask login.uuid login.userid login.username)).1 = .ok ()
  · obtain ⟨expires,same⟩ := stored_session sessions stored
    rw [same]
    intro uuid fields expires' held
    rw [Function.update_apply] at held
    split_ifs at held with own
    · obtain ⟨value,_⟩ := Entry.mk.inj (Option.some.inj held)
      exact ⟨_,_,(Value.hash.inj value).symm⟩
    · exact sessions uuid fields expires' held
  · rw [unchanged stored]
    exact sessions

theorem sessions_stored {k : Keyspace} (sessions : Sessions k) (logins : List Login) :
    Sessions (logins.foldl storeSession k) := by
  induction logins generalizing k with
  | nil => exact sessions
  | cons login logins ih => exact ih (sessions_store sessions login)

theorem session_stored {k : Keyspace} {uuid : Bytes} {userid : UInt64} {username : Bytes} {expires : Bool}
    (held : k uuid = some ⟨.hash (sessionFields userid username),expires⟩) : SessionOf k uuid userid := by
  refine ⟨_,_,held,by simp [sessionFields],?_⟩
  have field : lookup (sessionFields userid username) (ascii "userid") = decimal userid.toNat := by
    simp [lookup,sessionFields,names_differ]
  rw [field]
  exact stoull_decimal userid

/-- What `validate` makes of the fields of a session. -/
inductive Validates (fields : List (Bytes × Bytes)) : Bool × UInt64 → Prop
  | session {userid : UInt64} (some : fields ≠ [])
      (number : stoull (lookup fields (ascii "userid")) = .ok userid) : Validates fields (true,userid)
  | absent (none : fields = []) : Validates fields (false,-1)

section validate
variable {cwd : File} {me : Nat} {uuid : Bytes} {w w' : World} {out : Except Halt (Bool × UInt64)}

/-- The reply of Redis decides the answer, and nothing else happens. -/
theorem runs_validates {fields : List (Bytes × Bytes)} {answer : Bool × UInt64}
    (replied : (exec w.store.redis.keys (.hgetall uuid)).1 = .ok fields) (validates : Validates fields answer) :
    Runs (Sys (calm cwd) me) (validate uuid) w out w' ↔ out = .ok answer ∧ w' = w := by
  obtain ⟨c,⟨⟨keys,added⟩,table,files⟩⟩ := w
  have only (r : Except RedisError (List (Bytes × Bytes))) (s : State) :
      typed ⟨keys,added⟩ (.hgetall uuid) r s ↔ r = .ok fields ∧ s = ⟨keys,added⟩ := by
    simp only [typed,replied,(exec_reads keys uuid []).1,record]
  constructor
  · intro run
    have answers : Wp (Sys (calm cwd) me) (fun _ _ => True) (validate uuid)
        (fun out w' => out = .ok answer ∧ w' = ⟨c,⟨⟨keys,added⟩,table,files⟩⟩)
        ⟨c,⟨⟨keys,added⟩,table,files⟩⟩ := by
      refine wp_bind (wp_redis trivial (fun reply s asked => ?_) fun e s asked => ?_)
      · obtain ⟨replied,rfl⟩ := (only _ _).mp asked
        obtain rfl := Except.ok.inj replied
        dsimp only [After]
        cases validates with
        | session some number =>
          rw [if_pos (by simpa using some),number]
          exact ⟨rfl,rfl⟩
        | absent none =>
          rw [if_neg (by simpa using none)]
          exact ⟨rfl,rfl⟩
      · cases ((only _ _).mp asked).1
    exact wp_runs run answers
  · rintro ⟨rfl,rfl⟩
    have answered : Can (Sys (calm cwd) me) (validate uuid)
        (fun out w' => out = .ok answer ∧ w' = ⟨c,⟨⟨keys,added⟩,table,files⟩⟩)
        ⟨c,⟨⟨keys,added⟩,table,files⟩⟩ := by
      refine can_bind (can_bind (can_ask ⟨_,(only _ _).mpr ⟨rfl,rfl⟩,rfl⟩ (can_ret ?_)))
      dsimp only [After]
      cases validates with
      | session some number =>
        rw [if_pos (by simpa using some),number]
        exact can_ret ⟨rfl,rfl⟩
      | absent none =>
        rw [if_neg (by simpa using none)]
        exact can_ret ⟨rfl,rfl⟩
    obtain ⟨out,w',run,rfl,rfl⟩ := answered
    exact run

theorem runs_validate {userid : UInt64} (session : SessionOf w.store.redis.keys uuid userid) :
    Runs (Sys (calm cwd) me) (validate uuid) w out w' ↔ out = .ok (true,userid) ∧ w' = w := by
  obtain ⟨fields,expires,held,some,number⟩ := session.live
  exact runs_validates (by simp only [exec,held]) (.session some number)

/-- Without a session the answer is no user, and its number is the largest there is. -/
theorem runs_validate_absent (absent : w.store.redis.keys uuid = none) :
    Runs (Sys (calm cwd) me) (validate uuid) w out w' ↔ out = .ok (false,-1) ∧ w' = w :=
  runs_validates (by simp only [exec,absent]) (.absent rfl)

end validate

/-- The services and the TCP server act for the user that the session was stored for. -/
structure SameUser (k : Keyspace) (login : Login) : Prop where
  dirAdd : ∀ dirname dirid, DirAdd.redisCallback dirname dirid (hgetallReply k login.uuid) =
    .query (DirAdd.sql dirname dirid (decimal login.userid.toNat))
  dirRm : ∀ dirid, DirRm.redisCallback dirid (hgetallReply k login.uuid) =
    .query (DirRm.sql dirid (decimal login.userid.toNat))
  dirQuery : ∀ dirid, DirQuery.redisCallback dirid (hgetallReply k login.uuid) =
    .query (DirQuery.sql dirid (decimal login.userid.toNat))
  validate : ∀ cwd me w out w', w.store.redis.keys = k →
    (Runs (Sys (calm cwd) me) (validate login.uuid) w out w' ↔ out = .ok (true,login.userid) ∧ w' = w)

/-- A callback takes the second element of the reply, which is the name of the user. -/
theorem callback_username {k : Keyspace} {uuid : Bytes} {userid : UInt64} {username : Bytes}
    {expires : Bool} (held : k uuid = some ⟨.hash (sessionFields userid username),expires⟩)
    (sql : Bytes → Bytes) : redisCallback sql (hgetallReply k uuid) = .query (sql username) := by
  simp [hgetallReply,exec,held,redisCallback,sessionFields]

/-- After any logins and one more, its session resolves to its user everywhere exactly when
the user is named by the digits of the user's own number. -/
theorem same_user_iff {k : Keyspace}
    (fresh : ∀ uuid fields expires, k uuid ≠ some ⟨.hash fields,expires⟩) (earlier : List Login)
    (login : Login) (stored : (exec (earlier.foldl storeSession k)
      (redisSessionTask login.uuid login.userid login.username)).1 = .ok ()) :
    SameUser (storeSession (earlier.foldl storeSession k) login) login ↔
      login.username = decimal login.userid.toNat := by
  have sessions : Sessions k := fun uuid fields expires held => absurd held (fresh uuid fields expires)
  obtain ⟨expires,same⟩ := stored_session (sessions_stored sessions earlier) stored
  have held : storeSession (earlier.foldl storeSession k) login login.uuid =
      some ⟨.hash (sessionFields login.userid login.username),expires⟩ := by
    rw [same,Function.update_self]
  constructor
  · intro user
    have query := (callback_username held (DirRm.sql 0)).symm.trans (user.dirRm 0)
    exact (sql_injective [] 0).2.1 (Outcome.query.inj query)
  · intro named
    have callback (sql : Bytes → Bytes) : redisCallback sql (hgetallReply
        (storeSession (earlier.foldl storeSession k) login) login.uuid) =
          .query (sql (decimal login.userid.toNat)) :=
      (callback_username held sql).trans (by rw [named])
    exact ⟨fun _ _ => callback _,fun _ => callback _,fun _ => callback _,
      fun cwd me w out w' keys => runs_validate (keys ▸ session_stored held)⟩

def sampleLogin : Login := ⟨sampleUuid,7,ascii "ann"⟩

theorem sample_same_user : SameUser (storeSession (fun _ => none) sampleLogin) sampleLogin ↔
    sampleLogin.username = decimal sampleLogin.userid.toNat :=
  @same_user_iff (fun _ => none) nofun [] sampleLogin rfl

/-- The directory services act for a user whose number is `"ann"`. -/
theorem other_user : ¬ ∀ (k : Keyspace) (login : Login),
    (∀ uuid fields expires, k uuid ≠ some ⟨.hash fields,expires⟩) →
    (exec k (redisSessionTask login.uuid login.userid login.username)).1 = .ok () →
    SameUser (storeSession k login) login := by
  intro claim
  have query := (claim (fun _ => none) sampleLogin nofun rfl).dirRm 0
  have actual : DirRm.redisCallback 0 (hgetallReply (storeSession (fun _ => none) sampleLogin)
      sampleLogin.uuid) = .query (DirRm.sql 0 (ascii "ann")) := by decide +kernel
  exact absurd (actual.symm.trans query) (by decide +kernel)

end FilediskServer.DirInfoServer
