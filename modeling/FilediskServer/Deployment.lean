import FilediskServer.RowOrigins
import FilediskServer.UserSign

/-! The login service and the file server over one Redis. A row of the table goes back to a login,
through the session that the one stores and the other reads. -/
namespace FilediskServer.Deployment
open Interaction Bytes CusInfo Filetree Calls FileServer FileTask FileTaskRuns Downloads Utility RowOrigins
open Redis hiding State

structure State where
  sign : UserSign.State
  server : FileServer.State
  shared : sign.keys = server.store.redis.keys

def State.start (store : Store) : State := ⟨.start store.redis.keys,.start store,rfl⟩

/-- The file server after another client of Redis. -/
def holding (s : FileServer.State) (keys : Keyspace) : FileServer.State :=
  {s with store := {s.store with redis := {s.store.redis with keys := keys}}}

inductive Step (cfg : Config) (s : State) : State → Prop
  | sign {next : UserSign.State} (step : UserSign.SignStep cfg.md5 s.sign next) :
      Step cfg s ⟨next,holding s.server next.keys,rfl⟩
  | serve {next : FileServer.State} (step : ServerStep cfg s.server next) :
      Step cfg s ⟨{s.sign with keys := next.store.redis.keys},next,rfl⟩

/-- As `Asks`, with a uuid at the start of the record. No byte ends it there, so the length of the name
has to: its lowest byte is 0. -/
inductive Uploads (granted : Bytes → UInt64 → Prop) : Bytes → Row → Prop
  | mk {uuid record name header : Bytes} {userid : UInt64} (rest : Bytes) (session : granted uuid userid)
      (recorded : record.length ≤ sizeofDatauuid) (carried : uuid <+: record)
      (multiple : namelenOf (filled sizeofDatauuid record) % 256 = 0)
      (named : name.length ≤ (namelenOf (filled sizeofDatauuid record)).toNat)
      (headed : header.length ≤ sizeofFileheader)
      (wanted : (Fileheader.read (filled sizeofFileheader header)).upload = true) :
      Uploads granted (record ++ (name ++ (header ++ rest))) (newRow (Fileheader.read (filled sizeofFileheader header))
        (cstr (filled (namelenOf (filled sizeofDatauuid record) + 1).toNat name)) userid)

section sessions
variable {md5 : Bytes → Digest} {k : Keyspace} {uuid key : Bytes} {userid userid' : UInt64}

theorem lookup_setField (fields : List (Bytes × Bytes)) (name value : Bytes) :
    lookup (setField fields (name,value)) name = value := by
  unfold lookup setField
  split_ifs with known
  · induction fields with
    | nil => simp at known
    | cons field fields ih =>
      by_cases own : field.1 = name
      · simp [own]
      · have later : fields.any (·.1 == name) = true := by simpa [own] using known
        simpa [own] using ih later
  · have none : fields.find? (·.1 == name) = none := List.find?_eq_none.mpr fun field inside own =>
      known (List.any_eq_true.mpr ⟨field,inside,own⟩)
    simp [List.find?_append,none]

/-- A session is that of the user it was last stored for. -/
theorem session_stored {name : Bytes} (session : SessionOf (exec k (redisSessionTask uuid userid name)).2 key userid') :
    SessionOf k key userid' ∨ key = uuid ∧ userid' = userid := by
  obtain ⟨fields,expires,held,some,number⟩ := session.live
  by_cases own : uuid = key
  · subst own
    have last (old : List (Bytes × Bytes)) (same : fields = [(ascii "username",name),
        (ascii "userid",decimal userid.toNat)].foldl setField old) : userid' = userid := by
      rw [same,List.foldl_cons,List.foldl_cons,List.foldl_nil,lookup_setField,stoull_decimal] at number
      exact (Except.ok.inj number).symm
    simp only [redisSessionTask,exec] at held
    split at held
    · simp only [Function.update_self] at held
      cases held
      exact .inr ⟨rfl,last [] rfl⟩
    next old _ _ =>
      simp only [Function.update_self] at held
      cases held
      exact .inr ⟨rfl,last old rfl⟩
    · exact .inl ⟨fields,expires,held,some,number⟩
  · have kept : (exec k (redisSessionTask uuid userid name)).2 key = k key := exec_other own
    rw [kept] at held
    exact .inl ⟨fields,expires,held,some,number⟩

/-- The sessions that are in Redis or on their way there. -/
def Stored (granted : Bytes → UInt64 → Prop) (s : UserSign.State) : Prop :=
  (∀ uuid userid, SessionOf s.keys uuid userid → granted uuid userid) ∧
    ∀ x ∈ s.hmsets, ∃ uuid userid name, x.2 = redisSessionTask uuid userid name ∧ granted uuid userid

end sessions

section records
variable {record beyond uuid : Bytes}

end records

section runs
variable {cfg : Config} {store : Store} {s s' : State} {log : List (Nat × Event signature)}

end runs

section sample
open UploadHistory

def sampleEmpty : Store := ⟨⟨fun _ => none,[]⟩,[],fun _ => none⟩

end sample

end FilediskServer.Deployment
