import FilediskServer.DirInfoServer
import FilediskServer.Mysql

/-! One request to a directory service: the reply of Redis is answered by a statement, and the
answer of MySQL by the reply to the client. A reply that nothing is set in has code 0. -/
namespace FilediskServer.DirInfoServer
open Bytes Redis Mysql FileTask Utility

structure DirInfo where
  dirid : Int
  name : Bytes
  uuid : Bytes

inductive Json
  | number (value : Int)
  | text (value : Bytes)
  | array (elements : List Json)
  | object (fields : List (Bytes × Json))

/-- `jsoninfo` is kept as the value that is dumped into it. -/
structure DirRet where
  code : Int := 0
  jsoninfo : Option Json := none

/-- What the accessors of a `protocol::MySQLCell` return. -/
structure MySQLCell where
  asUlonglong : UInt64
  asString : Bytes
  asInt : Int

abbrev Cursor := MySQLResultCursor (List MySQLCell)

def refusal : DirRet := ⟨-1,some (.object [(ascii "code",.number (-1))])⟩

def DirAdd.callback (dirname : Bytes) (cursor : Cursor) : DirRet :=
  if cursor.status = .ok then
    ⟨0,some (.object [(ascii "code",.number 0),(ascii "dirid",.number cursor.insertId.toNat),
      (ascii "name",.text dirname)])⟩
  else refusal

def DirRm.callback (cursor : Cursor) : DirRet :=
  if cursor.status = .ok ∧ cursor.affectedRows = 1 then
    ⟨0,some (.object [(ascii "code",.number 0),(ascii "msg",.text (ascii "del ok!"))])⟩
  else
    ⟨-1,some (.object [(ascii "code",.number (-1)),(ascii "msg",.text (ascii "del error"))])⟩

namespace DirQuery

def object (id : UInt64) (name : Bytes) (index : Int) (filesize : UInt64) : Json :=
  .object [(ascii "id",.number id.toNat),(ascii "name",.text name),(ascii "index",.number index),
    (ascii "filesize",.number filesize.toNat)]

/-- `rowjson`. A row that is too short is read past its end. -/
def rowjson : List MySQLCell → Option Json
  | id :: name :: index :: filesize :: _ =>
    some (object id.asUlonglong name.asString index.asInt filesize.asUlonglong)
  | _ => none

def listing (data : List Json) : DirRet :=
  ⟨0,some (.object [(ascii "code",.number 0),(ascii "data",.array data)])⟩

def callback (cursor : Cursor) : Option DirRet :=
  if cursor.status = .ok then (cursor.rows.mapM rowjson).map listing else some refusal

end DirQuery

inductive Service
  | dirAdd
  | dirRm
  | dirQuery
  deriving DecidableEq

namespace Service
variable (request : DirInfo)

def redisCallback : Service → RedisValue → Outcome
  | .dirAdd => DirAdd.redisCallback request.name (toUnsigned request.dirid)
  | .dirRm => DirRm.redisCallback (toUnsigned request.dirid)
  | .dirQuery => DirQuery.redisCallback (toUnsigned request.dirid)

def callback (cursor : Cursor) : Service → Option DirRet
  | .dirAdd => some (DirAdd.callback request.name cursor)
  | .dirRm => some (DirRm.callback cursor)
  | .dirQuery => DirQuery.callback cursor

/-- The reply at the end of the series; `none` is undefined. The cursor is what MySQL answers
to the statement, if there is one. -/
def serve (service : Service) (reply : RedisValue) (cursor : Cursor) : Option DirRet :=
  match service.redisCallback request reply with
  | .query _ => service.callback request cursor
  | .printed _ => some {}
  | .undefined => none

end Service

/-- The reply has the field that `redis_session_task` names the user by. -/
def RedisValue.HoldsSession : RedisValue → Prop
  | .array elements => ∃ fields : List (Bytes × Bytes),
    elements = fields.flatMap (fun field => [field.1,field.2]) ∧ ∃ field ∈ fields, field.1 = ascii "userid"
  | .other => False

/-- No element that is not there, no statement without a session, and no success without a
statement that was executed. -/
structure ReportsWork (request : DirInfo) (service : Service) (reply : RedisValue) : Prop where
  inside : service.redisCallback request reply ≠ .undefined
  session : ∀ sql, service.redisCallback request reply = .query sql → reply.HoldsSession
  executed : ∀ cursor ret, service.serve request reply cursor = some ret → ret.code = 0 →
    (∃ sql, service.redisCallback request reply = .query sql) ∧ cursor.status = .ok

section replies
variable {request : DirInfo} {service : Service} {cursor : Cursor} {ret : DirRet}

theorem callback_ok (answered : service.callback request cursor = some ret) (success : ret.code = 0) :
    cursor.status = .ok := by
  cases service with
  | dirAdd =>
    obtain rfl := Option.some.inj answered
    unfold DirAdd.callback at success
    split_ifs at success with executed
    · exact executed
    · cases success
  | dirRm =>
    obtain rfl := Option.some.inj answered
    unfold DirRm.callback at success
    split_ifs at success with executed
    · exact executed.1
    · cases success
  | dirQuery =>
    change DirQuery.callback cursor = some ret at answered
    unfold DirQuery.callback at answered
    split_ifs at answered with executed
    · exact executed
    · cases answered
      cases success

theorem redisCallback_array (service : Service) (request : DirInfo) (elements : List Bytes) :
    (∃ sql, service.redisCallback request (.array elements) = .query sql) ∧ 2 ≤ elements.length ∨
      service.redisCallback request (.array elements) = .undefined ∧ elements.length < 2 := by
  cases elements with
  | nil => exact .inr ⟨by cases service <;> rfl,by simp⟩
  | cons first rest =>
    cases rest with
    | nil => exact .inr ⟨by cases service <;> rfl,by simp⟩
    | cons second rest => exact .inl ⟨by cases service <;> exact ⟨_,rfl⟩,by simp⟩

theorem redisCallback_other (service : Service) (request : DirInfo) :
    ∃ text, service.redisCallback request .other = .printed text := by
  cases service <;> exact ⟨_,rfl⟩

theorem holdsSession_length {elements : List Bytes} (session : (RedisValue.array elements).HoldsSession) :
    2 ≤ elements.length := by
  obtain ⟨fields,rfl,field,inside,_⟩ := session
  obtain ⟨before,after,rfl⟩ := List.append_of_mem inside
  simp only [List.flatMap_append,List.flatMap_cons,List.length_append,List.length_cons,List.length_nil]
  omega

/-- A service reports what was done just when the reply of Redis holds a session. -/
theorem reports_work_iff (request : DirInfo) (service : Service) (reply : RedisValue) :
    ReportsWork request service reply ↔ reply.HoldsSession := by
  constructor
  · intro reports
    cases reply with
    | array elements =>
      rcases redisCallback_array service request elements with ⟨⟨sql,asked⟩,_⟩ | ⟨outside,_⟩
      · exact reports.session sql asked
      · exact absurd outside reports.inside
    | other =>
      obtain ⟨text,printed⟩ := redisCallback_other service request
      -- Nothing sets the code.
      have served : service.serve request .other ⟨.error,0,0,[]⟩ = some {} := by
        rw [Service.serve,printed]
      obtain ⟨⟨sql,asked⟩,_⟩ := reports.executed _ _ served rfl
      rw [printed] at asked
      cases asked
  · intro session
    cases reply with
    | array elements =>
      rcases redisCallback_array service request elements with ⟨⟨sql,asked⟩,_⟩ | ⟨_,short⟩
      · refine ⟨by rw [asked]; nofun,fun _ _ => session,fun cursor ret served success => ?_⟩
        rw [Service.serve,asked] at served
        exact ⟨⟨sql,asked⟩,callback_ok served success⟩
      · exact absurd (holdsSession_length session) (by omega)
    | other => exact session.elim

/-- Redis has no such key: the array is empty. -/
theorem unknown_uuid : ¬ ∀ request service reply, ReportsWork request service reply := by
  intro claim
  exact (claim ⟨1,ascii "a",sampleUuid⟩ .dirAdd (hgetallReply (fun _ => none) sampleUuid)).inside
    (by decide +kernel)

end replies

end FilediskServer.DirInfoServer
