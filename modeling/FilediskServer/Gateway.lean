import FilediskServer.Messages
import FilediskServer.SessionStore
import FilediskServer.UserSign

/-! The HTTP gateway: what its handlers send to the RPC services, what these make of it, and what
comes back as a cookie. -/
namespace FilediskServer.Gateway
open Bytes CusInfo Redis Utility MessageCodec Messages DirInfoServer

/-- What a handler takes from the JSON of a request. -/
structure DirBody where
  dirid : BitVec 64
  dirName : Bytes
  uuid : Bytes

inductive DirService
  | dirQuery
  | dirAdd
  | dirRm

section http
variable {R : Runtime}

/-- What `query_dir_http`, `add_dir_http` and `rm_dir_http` send. -/
def DirBody.info (R : Runtime) (body : DirBody) : Message R DirInfo :=
  DirInfo.setUuid (DirInfo.setName (DirInfo.setDirid clear body.dirid) body.dirName) body.uuid

def DirService.callback (service : DirService) (dirname : Bytes) (dirid : UInt64) : RedisValue → Outcome :=
  match service with
  | dirQuery => DirQuery.redisCallback dirid
  | dirAdd => DirAdd.redisCallback dirname dirid
  | dirRm => DirRm.redisCallback dirid

def DirService.sql (service : DirService) (dirname : Bytes) (dirid : UInt64) : Bytes → Bytes :=
  match service with
  | dirQuery => DirQuery.sql dirid
  | dirAdd => DirAdd.sql dirname dirid
  | dirRm => DirRm.sql dirid

/-- `DirQuery`, `DirAdd` or `DirRm` and then its callback; the directory's number becomes unsigned. -/
def DirService.handle (service : DirService) (k : Keyspace) (request : Message R DirInfo) : Outcome :=
  service.callback (DirInfo.name request) ⟨DirInfo.dirid request⟩ (hgetallReply k (DirInfo.uuid request))

/-- `none`: the service is not called. -/
def DirService.receive (service : DirService) (k : Keyspace) (R : Runtime) (b : Bytes) : Option Outcome :=
  (parse R DirInfo b).map (service.handle k)

/-- What `SignUp` and `SignIn` answer with. -/
def userRet (R : Runtime) (response : UserSign.UserRet) : Message R UserRet :=
  UserRet.setUuid (UserRet.setMsg (UserRet.setCode clear (BitVec.ofInt 32 response.code)) response.msg)
    response.uuid

structure HttpResp where
  cookie : Bytes
  status : Int
  msg : Bytes

/-- The callback of `/register` and of `/login`. -/
def signResponse (response : Message R UserRet) : HttpResp where
  cookie := UserRet.uuid response
  status := (UserRet.code response).toInt
  msg := UserRet.msg response

end http

section arrival
variable {R : Runtime} (lawful : R.Lawful) (preserve : Bool)
include lawful

/-- A directory request comes through as it was sent, or not at all. -/
theorem receive_info (service : DirService) (k : Keyspace) {body : DirBody}
    (name : body.dirName.length < 2 ^ 31) (uuid : body.uuid.length < 2 ^ 31) :
    service.receive k R (serialize preserve (body.info R)) =
      if Arrives R body.dirName ∧ Arrives R body.uuid then
        some (service.callback body.dirName ⟨body.dirid⟩ (hgetallReply k body.uuid))
      else none := by
  have readable : (∀ i, (body.info R).Readable i) ↔
      Arrives R body.dirName ∧ Arrives R body.uuid := DirInfo.readable _
  have sendable : (body.info R).Sendable := DirInfo.sendable name uuid rfl
  have kept : (body.info R).kept preserve = body.info R := by cases preserve <;> rfl
  rw [DirService.receive,parse_serialize lawful preserve sendable,kept]
  by_cases arrives : Arrives R body.dirName ∧ Arrives R body.uuid
  · rw [if_pos (readable.mpr arrives),if_pos arrives]
    rfl
  · rw [if_neg (mt readable.mp arrives),if_neg arrives]
    rfl

theorem parse_userRet {response : UserSign.UserRet} (msg : response.msg.length < 2 ^ 31)
    (uuid : response.uuid.length < 2 ^ 31) (arrives : Arrives R response.msg ∧ Arrives R response.uuid) :
    parse R UserRet (serialize preserve (userRet R response)) = some (userRet R response) := by
  have sendable : (userRet R response).Sendable := UserRet.sendable msg uuid rfl
  have kept : (userRet R response).kept preserve = userRet R response := by
    cases preserve <;> rfl
  rw [parse_serialize lawful preserve sendable,kept,
    if_pos ((UserRet.readable _).mpr arrives)]

end arrival

theorem ascii_of_uuid {uuid : Bytes} (text : UuidText uuid) : ∀ b ∈ uuid, b < 0x80 := by
  intro b inside
  obtain ⟨i,bound,rfl⟩ := List.mem_iff_getElem.mp inside
  have digit := text.digits i bound
  split_ifs at digit
  · rw [digit]
    decide
  · simp only [isHexDigit,isDigit,Bool.or_eq_true,Bool.and_eq_true,decide_eq_true_eq,
      UInt8.le_iff_toNat_le,UInt8.reduceToNat] at digit
    simp only [UInt8.lt_iff_toNat_lt,UInt8.reduceToNat]
    omega

theorem plain_ok : ∀ b ∈ ascii "ok!", b < 0x80 := by
  have bytes : ascii "ok!" = [111,107,33] := rfl
  simp [bytes]

section sessions
variable {uuid : Bytes} {request : UserSign.Request} {md5 : Bytes → Digest} {cursor : UserSign.Cursor} {name : Bytes}
  {c : Command} {response : UserSign.UserRet}

/-- Whom a session is stored for. -/
theorem answered_login (answered : request.callback md5 cursor name uuid = (some c,response)) :
    (∃ login : Login, login.uuid = uuid ∧ c = redisSessionTask login.uuid login.userid login.username) ∧
      response = ⟨0,ascii "ok!",uuid⟩ := by
  have answers := UserSign.callback_answers md5 cursor name uuid request
  rw [answered] at answers
  cases answers with
  | signed userid name => exact ⟨⟨⟨uuid,userid,name⟩,rfl,rfl⟩,rfl⟩

theorem lastLogin_between (earlier : List Login) {later : List Login} {login : Login} (own : login.uuid = uuid)
    (others : ∀ other ∈ later, other.uuid ≠ uuid) :
    lastLogin (earlier ++ login :: later) uuid = some login := by
  have none : later.filter (·.uuid = uuid) = [] := List.filter_eq_nil_iff.mpr fun other mem => by
    simpa using others other mem
  rw [lastLogin,List.filter_append,List.filter_cons_of_pos (by simpa using own),none]
  simp

/-- The uuid that a login leaves in the cookie leads the directory services to the user of this
login, whoever logged in before or after, with every request that arrives. -/
theorem cookie_reaches_user {R : Runtime} (lawful : R.Lawful)
    (plain : ∀ b : Bytes, (∀ x ∈ b, x < 0x80) → R.verifyUtf8 b = true) (preserve : Bool) {k : Keyspace}
    (absent : k uuid = none) (text : UuidText uuid)
    (answered : request.callback md5 cursor name uuid = (some c,response))
    (earlier later : List Login) (others : ∀ login ∈ later, login.uuid ≠ uuid) :
    (parse R UserRet (serialize preserve (userRet R response))).map signResponse =
      some ⟨uuid,0,ascii "ok!"⟩ ∧
    ∃ userid username, c = redisSessionTask uuid userid username ∧
      ∀ (service : DirService) (dirid : BitVec 64) (dirName : Bytes), dirName.length < 2 ^ 31 →
        service.receive (later.foldl storeSession (exec (earlier.foldl storeSession k) c).2) R
          (serialize preserve (DirBody.info R ⟨dirid,dirName,uuid⟩)) =
        if Arrives R dirName then some (.query (service.sql dirName ⟨dirid⟩ username)) else none := by
  obtain ⟨⟨login,rfl,rfl⟩,rfl⟩ := answered_login answered
  have small : login.uuid.length < 2 ^ 31 := by rw [text.length]; decide
  have short : (ascii "ok!").length < 2 ^ 31 := by decide
  have arrives : Arrives R login.uuid := .inr (plain _ (ascii_of_uuid text))
  refine ⟨?_,login.userid,login.username,rfl,fun service dirid dirName short => ?_⟩
  · rw [parse_userRet lawful preserve short small ⟨.inr (plain _ plain_ok),arrives⟩]
    rfl
  · have held := stored_last absent (earlier ++ login :: later)
    rw [lastLogin_between earlier rfl others,List.foldl_append,List.foldl_cons] at held
    have found := callback_username held
    rw [receive_info lawful preserve service _ short small]
    simp only [arrives,and_true]
    congr 2
    cases service with
    | dirQuery => exact found _
    | dirAdd => exact found _
    | dirRm => exact found _

end sessions

def sampleEarlier : List Login := [⟨ascii "0f8fad5b-d9cb-469f-a165-70867728950e",3,ascii "bob"⟩]

def sampleLater : List Login := [⟨ascii "7c9e6679-7425-40de-944b-e07fc1f90ae7",4,ascii "eve"⟩]

/-- Bob logged in before ann, and eve after her. -/
theorem sample_cookie_reaches_user :
    ∃ userid username, redisSessionTask sampleUuid 7 (ascii "ann") = redisSessionTask sampleUuid userid username ∧
      ∀ (service : DirService) (dirid : BitVec 64) (dirName : Bytes), dirName.length < 2 ^ 31 →
        service.receive (sampleLater.foldl storeSession (exec (sampleEarlier.foldl storeSession fun _ => none)
            (redisSessionTask sampleUuid 7 (ascii "ann"))).2) WireFormat.runtime
          (serialize true (DirBody.info WireFormat.runtime ⟨dirid,dirName,sampleUuid⟩)) =
        if Arrives WireFormat.runtime dirName then some (.query (service.sql dirName ⟨dirid⟩ username)) else none :=
  (@cookie_reaches_user sampleUuid (.signUp ⟨ascii "ann",ascii "p"⟩ []) (fun _ _ => 65)
    ⟨true,7,1,.long,⟨0,[],[],[]⟩⟩ (ascii "ann") (redisSessionTask sampleUuid 7 (ascii "ann"))
    ⟨0,ascii "ok!",sampleUuid⟩ WireFormat.runtime WireFormat.lawful (fun _ => WireFormat.utf8_of_ascii) true
    (fun _ => none) rfl sampleUuid_text rfl sampleEarlier sampleLater (by decide +kernel)).2

end FilediskServer.Gateway
