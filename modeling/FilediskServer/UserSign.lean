import FilediskServer.Mysql
import FilediskServer.Utility

/-! The login service. `SignUp` and `SignIn` put a MySQL query on the series of their request,
whose response is sent when the series ends. The session goes to Redis as a task of its own. -/
namespace FilediskServer.UserSign
open Bytes CusInfo Mysql Redis Utility

structure UserSign where
  username : Bytes
  password : Bytes

structure UserRet where
  code : Int
  msg : Bytes
  uuid : Bytes
  deriving DecidableEq

structure UserRow where
  userid : UInt64
  username : Bytes
  salt : Bytes
  encpwd : Bytes

/-- `protocol::MySQLResultCursor` on a reply, with the row that `fetch_row` gives and the type of
its column `id`. -/
structure Cursor where
  ok : Bool
  insertId : UInt64
  affectedRows : Nat
  idType : DataType
  row : UserRow

namespace SignUp

def sql (md5 : Bytes → Digest) (request : UserSign) (salt : Bytes) : Bytes :=
  ascii "insert into user(username,salt,encpwd) values ('" ++ request.username ++ ascii "','" ++ salt ++
    ascii "','" ++ (md5 (request.password ++ salt)).bytes ++ ascii "');"

/-- `name` is what `string username=username;` leaves, which initialises the name by itself. -/
def callback (cursor : Cursor) (name uuid : Bytes) : Option Command × UserRet :=
  if cursor.ok then (some (redisSessionTask uuid cursor.insertId name),⟨0,ascii "ok!",uuid⟩)
  else (none,⟨-1,ascii "duplicated username",[]⟩)

end SignUp

namespace SignIn

def sql (request : UserSign) : Bytes :=
  ascii "select * from user where username='" ++ request.username ++ ascii "';"

def callback (md5 : Bytes → Digest) (password : Bytes) (cursor : Cursor) (uuid : Bytes) :
    Option Command × UserRet :=
  if cursor.ok ∧ cursor.affectedRows > 0 then
    let encpwd2 := md5 (password ++ cursor.row.salt)
    let flag := (List.finRange 16).all fun i => encpwd2 i == cursor.row.encpwd.getD i 0
    if flag then
      let userid := cursor.idType.asUlonglong cursor.row.userid
      (some (redisSessionTask uuid userid cursor.row.username),⟨0,ascii "ok!",uuid⟩)
    else (none,⟨-1,ascii "login error username",[]⟩)
  else (none,⟨-1,ascii "login error username",[]⟩)

end SignIn

inductive Request
  | signUp (request : UserSign) (salt : Bytes)
  | signIn (request : UserSign)

def Request.sql (md5 : Bytes → Digest) : Request → Bytes
  | .signUp request salt => SignUp.sql md5 request salt
  | .signIn request => SignIn.sql request

def Request.callback (md5 : Bytes → Digest) (cursor : Cursor) (name uuid : Bytes) :
    Request → Option Command × UserRet
  | .signUp _ _ => SignUp.callback cursor name uuid
  | .signIn request => SignIn.callback md5 request.password cursor uuid

/-- A code 0 comes with a session on its way to Redis, under the uuid of the response. -/
inductive Answers (uuid : Bytes) : Option Command × UserRet → Prop
  | refused (msg : Bytes) : Answers uuid (none,⟨-1,msg,[]⟩)
  | signed (userid : UInt64) (name : Bytes) :
      Answers uuid (some (redisSessionTask uuid userid name),⟨0,ascii "ok!",uuid⟩)

theorem callback_answers (md5 : Bytes → Digest) (cursor : Cursor) (name uuid : Bytes)
    (request : Request) : Answers uuid (request.callback md5 cursor name uuid) := by
  cases request with
  | signUp request salt =>
    dsimp only [Request.callback,SignUp.callback]
    split_ifs
    · exact .signed ..
    · exact .refused _
  | signIn request =>
    dsimp only [Request.callback,SignIn.callback]
    split_ifs
    · exact .signed ..
    · exact .refused _
    · exact .refused _

/-- A query that MySQL has not answered. Requests go by the order they came in. -/
structure Query where
  id : Nat
  request : Request
  sql : Bytes

/-- What is in flight, what the clients have received, and what Redis holds. `stored` are the
requests whose `hmset` succeeded, `issued` the uuids of those that were answered by code 0.
`replies` is what the servers got from Redis for the uuid of a later request. -/
structure State where
  asked : Nat
  queries : List Query
  hmsets : List (Nat × Command)
  responses : List (Nat × UserRet)
  received : List (Nat × UserRet)
  followUps : List Bytes
  replies : List (Bytes × Except RedisError (List (Bytes × Bytes)))
  keys : Keyspace
  stored : List Nat
  issued : List (Nat × Bytes)

def State.start (keys : Keyspace) : State := ⟨0,[],[],[],[],[],[],keys,[],[]⟩

/-- The callback of a query: the session starts for Redis and the response for the client. -/
def State.answer (s : State) (id : Nat) (rest : List Query) (answer : Option Command × UserRet) :
    State := {s with
  queries := rest
  hmsets := s.hmsets ++ answer.1.toList.map (id,·)
  responses := s.responses ++ [(id,answer.2)]
  issued := s.issued ++ answer.1.toList.map fun _ => (id,answer.2.uuid)}

def State.execute (s : State) (id : Nat) (c : Command) (rest : List (Nat × Command)) : State := {s with
  hmsets := rest
  keys := (exec s.keys c).2
  stored := match (exec s.keys c).1 with
    | .ok _ => id :: s.stored
    | .error _ => s.stored}

/-- What the TCP server does to a user's cache. -/
inductive CacheCommand (userid : UInt64) : Command → Prop
  | sadd (path : Bytes) : CacheCommand userid (.sadd (decimal userid.toNat) path)
  | setex (ttl : Nat) (path : Bytes) : CacheCommand userid (.setex (decimal userid.toNat) ttl path)

/-- Anything that is in flight may be next. MySQL may answer anything. -/
inductive SignStep (md5 : Bytes → Digest) (s : State) : State → Prop
  | request (request : Request) : SignStep md5 s {s with
      asked := s.asked + 1, queries := s.queries ++ [⟨s.asked,request,request.sql md5⟩]}
  | query {before after : List Query} {q : Query} {name uuid : Bytes} (cursor : Cursor)
      (here : s.queries = before ++ q :: after) (text : UuidText uuid) :
      SignStep md5 s (s.answer q.id (before ++ after) (q.request.callback md5 cursor name uuid))
  | hmset {before after : List (Nat × Command)} {id : Nat} {c : Command}
      (here : s.hmsets = before ++ (id,c) :: after) : SignStep md5 s (s.execute id c (before ++ after))
  | hmsetFails {before after : List (Nat × Command)} {id : Nat} {c : Command}
      (here : s.hmsets = before ++ (id,c) :: after) : SignStep md5 s {s with hmsets := before ++ after}
  | response {before after : List (Nat × UserRet)} {r : Nat × UserRet}
      (here : s.responses = before ++ r :: after) : SignStep md5 s {s with
        responses := before ++ after, received := s.received ++ [r]}
  | followUp {r : Nat × UserRet} (known : r ∈ s.received) (signed : r.2.code = 0) :
      SignStep md5 s {s with followUps := s.followUps ++ [r.2.uuid]}
  | validate {before after : List Bytes} {uuid : Bytes} (here : s.followUps = before ++ uuid :: after) :
      SignStep md5 s {s with
        followUps := before ++ after,
        replies := s.replies ++ [(uuid,(exec s.keys (.hgetall uuid)).1)]}
  | cache {userid : UInt64} {c : Command} (of : CacheCommand userid c) :
      SignStep md5 s {s with keys := (exec s.keys c).2}
  | expire {key value : Bytes} (held : s.keys key = some ⟨.string value,true⟩) :
      SignStep md5 s {s with keys := Function.update s.keys key none}

end FilediskServer.UserSign
