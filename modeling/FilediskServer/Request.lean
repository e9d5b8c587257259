import FilediskServer.FileTaskRuns

/-! A request as the bytes a client sends, and what `process` makes of them when they
reach it whole. -/
namespace FilediskServer
open Interaction Bytes CusInfo Redis Calls SocketIO FileTask FileTaskRuns

/-- One record with the session key and the length of the name, the name, one file header,
and the bytes that follow: for an upload the content, perhaps after tries that failed. -/
structure Request where
  record : Bytes
  name : Bytes
  header : Bytes
  body : Bytes
  ended : Bool
  recordSize : record.length = sizeofDatauuid
  nameSize : name.length = (namelenOf record).toNat
  headerSize : header.length = sizeofFileheader

namespace Request

def bytes (q : Request) : Bytes := q.record ++ (q.name ++ (q.header ++ q.body))

def conn (q : Request) (output : Bytes) : Conn := ⟨q.bytes,q.ended,output⟩

def filename (q : Request) : Bytes := cstr q.name

def fileheader (q : Request) : Fileheader := Fileheader.read q.header

def encode (uuid name : Bytes) (fh : Fileheader) (body : Bytes) (ended : Bool)
    (short : uuid.length ≤ 36) (size : name.length < 2 ^ 31) : Request where
  record := recordOf uuid name.length
  name := name
  header := fh.bytes
  body := body
  ended := ended
  recordSize := length_recordOf short _
  nameSize := by rw [namelenOf_recordOf short (by omega) (by omega),Int.toNat_natCast]
  headerSize := length_bytes fh

end Request

namespace FileTaskRuns

theorem filled_of_length {n : Nat} {got : Bytes} (size : got.length = n) : filled n got = got :=
  overlay_zeros size

theorem cstr_filled {n : Nat} {got : Bytes} (size : got.length = n) :
    cstr (filled (n + 1) got) = cstr got := by
  have terminated : filled (n + 1) got = got ++ [0] := by
    simp [filled,overlay,zeros,size]
  rw [terminated]
  by_cases plain : 0 ∈ got
  · obtain ⟨first,last,rfl,none⟩ := List.eq_append_cons_of_mem plain
    rw [List.append_assoc,cstr_append_of_plain none,cstr_append_of_plain none]
    rfl
  · rw [cstr_append_of_plain plain,cstr_eq_self plain]
    simp [cstr]

theorem accepted_request {env : Env} {q : Request} {output filename : Bytes} {s : Store}
    {userid : UInt64} {fh : Fileheader} {w : World}
    (accepted : Accepted env ⟨q.conn output,s⟩ userid filename fh w)
    (reads : ∀ c : Conn, q.body.length < c.input.length → ¬ env.readFails c) :
    filename = q.filename ∧ fh = q.fileheader ∧ ∃ beyond sent r,
      Session env s.redis (uuidOf q.record beyond) userid r ∧
      Sent env (userValidation true) 1 sent ∧
      w = ⟨⟨q.body,q.ended,output ++ sent⟩,{s with redis := r}⟩ := by
  cases accepted with
  | @mk got beyond sent name header c₁ c₂ c₃ _ r record session answer low high room named headed =>
    obtain ⟨rfl,rfl⟩ := record.whole rfl q.recordSize fun c more => reads c
      (by simp only [List.length_append] at more; omega)
    rw [filled_of_length q.recordSize] at *
    obtain ⟨rfl,rfl⟩ := named.whole rfl q.nameSize fun c more => reads c
      (by simp only [List.length_append] at more; omega)
    obtain ⟨rfl,rfl⟩ := headed.whole rfl q.headerSize reads
    refine ⟨?_,?_,beyond,sent,r,session,answer,rfl⟩
    · have size : (namelenOf q.record + 1).toNat = (namelenOf q.record).toNat + 1 := by omega
      rw [size,cstr_filled q.nameSize]
      rfl
    · rw [filled_of_length q.headerSize]
      rfl

/-- The stack had room for the name of a request that was accepted. -/
theorem accepted_room {env : Env} {q : Request} {output filename : Bytes} {s : Store}
    {userid : UInt64} {fh : Fileheader} {w : World}
    (accepted : Accepted env ⟨q.conn output,s⟩ userid filename fh w)
    (reads : ∀ c : Conn, q.body.length < c.input.length → ¬ env.readFails c) :
    env.kernel.arrays (namelenOf q.record + 1).toNat := by
  cases accepted with
  | mk record _ _ _ _ room =>
    obtain ⟨rfl,-⟩ := record.whole rfl q.recordSize fun c more => reads c
      (by simp only [List.length_append] at more; omega)
    rwa [filled_of_length q.recordSize] at room

end FileTaskRuns

end FilediskServer
