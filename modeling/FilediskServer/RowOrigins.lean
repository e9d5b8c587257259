import FilediskServer.Readers
import FilediskServer.SessionEffects
import FilediskServer.Library.Logs

/-! Where the rows of the table come from when any number of workers serve any number of clients:
each is the record of what one task read. -/
namespace FilediskServer.RowOrigins
open Interaction Bytes CusInfo Filetree Disk Calls SocketIO FileTask FileTaskRuns Downloads FileServer
open Redis hiding State
open SessionEffects (Trace received received_snoc)

def inserted : Event signature → Option Row
  | ⟨.query (.insert userid filepath index path dirid filesize),true⟩ =>
    some ⟨userid,filepath,some index,path,dirid,filesize⟩
  | _ => none

/-- The bytes begin with a record of a session, a name and a header for an upload, each perhaps cut
short, and the row says what they say. -/
inductive Asks (granted : Bytes → UInt64 → Prop) : Bytes → Row → Prop
  | mk {record beyond name header : Bytes} {userid : UInt64} (rest : Bytes)
      (recorded : record.length ≤ sizeofDatauuid)
      (session : granted (uuidOf (filled sizeofDatauuid record) beyond) userid)
      (named : name.length ≤ (namelenOf (filled sizeofDatauuid record)).toNat)
      (headed : header.length ≤ sizeofFileheader)
      (wanted : (Fileheader.read (filled sizeofFileheader header)).upload = true) :
      Asks granted (record ++ (name ++ (header ++ rest))) (newRow (Fileheader.read (filled sizeofFileheader header))
        (cstr (filled (namelenOf (filled sizeofDatauuid record) + 1).toNat name)) userid)

/-- A `read` brings something, and no more than it was asked for. -/
def Fair : (c : Call) → c.Res → Prop
  | .read left, .data b => b.length ≤ left
  | _, _ => True

def Plain : Call → Prop
  | .query (.insert ..) | .redis (.hmset ..) => False
  | _ => True

/-- Redis has told the user of the session. -/
def Told (trace : Trace) (uuid : Bytes) (userid : UInt64) : Prop :=
  ∃ fields, ⟨.redis (.hgetall uuid),.ok fields⟩ ∈ trace ∧ fields ≠ [] ∧
    stoull (lookup fields (ascii "userid")) = .ok userid

/-- A row is inserted once, and as it was asked for. -/
def Explained (trace : Trace) : Call → Prop
  | .query (.insert userid filepath index path dirid filesize) => (∀ e ∈ trace, Plain e.1) ∧
      Asks (Told trace) (received trace) ⟨userid,filepath,some index,path,dirid,filesize⟩
  | .redis (.hmset ..) => False
  | _ => True

structure Began (got : Bytes) (trace : Trace) : Prop where
  received : received trace = got
  plain : ∀ e ∈ trace, Plain e.1

section phases
variable {got : Bytes} {trace : Trace} {α : Type}

theorem Began.snoc (began : Began got trace) {c : Call} (plain : Plain c) (r : c.Res) :
    Began (got ++ bytesRead (some ⟨c,r⟩)) (trace ++ [⟨c,r⟩]) := by
  refine ⟨by rw [received_snoc,began.received],fun e inside => ?_⟩
  obtain old | new := List.mem_append.mp inside
  · exact began.plain e old
  · rw [List.mem_singleton.mp new]
    exact plain

/-- The calls of a job that are answered in any way. -/
abbrev Says (job : Job α) (post : Except Halt α → Trace → Prop) (trace : Trace) : Prop :=
  Wp (Answering Fair) Explained job post trace

/-- Nothing but plain calls have been made since. -/
structure Since (got : Bytes) (trace trace' : Trace) : Prop where
  more : ∃ more, Began (got ++ more) trace'
  later : trace <+: trace'

theorem Began.since (began : Began got trace) : Since got trace trace :=
  ⟨⟨[],by simpa using began⟩,List.prefix_refl _⟩

end phases

section requests
variable {md5 : Bytes → Digest} {got : Bytes} {trace : Trace}

theorem plain_write (source : Source) (n : Nat) : Plain (.write source n) := trivial

theorem only_downloadfile (fh : Fileheader) (filename : Bytes) (userid : UInt64) :
    Only Plain (downloadfile fh filename userid) := by
  apply only_bind (only_getfilelist trivial)
  exact only_sendFiles trivial (fun _ _ => trivial) (fun _ => trivial) plain_write (fun _ => trivial)
    fun _ => trivial

end requests

/-- The hashes of `k'` are among those of `k`. -/
def Hashes (k k' : Keyspace) : Prop := ∀ key fields expires, k' key = some ⟨.hash fields,expires⟩ →
  ∃ expires, k key = some ⟨.hash fields,expires⟩

section redis
variable {k k' : Keyspace} {s s' : Redis.State} {c : Command} {uuid : Bytes} {userid : UInt64}

theorem Hashes.trans {k'' : Keyspace} (first : Hashes k k') (second : Hashes k' k'') : Hashes k k'' := by
  intro key fields expires held
  obtain ⟨expires,held⟩ := second key fields expires held
  exact first key fields expires held

end redis

section calls
variable {env : Env} {me : Nat} {w w' : World} {c : Call} {r : c.Res}

end calls

section servers
variable {cfg : Config} {store : Store} {s s' : State} {granted : Bytes → UInt64 → Prop} {table : List Row}
  {log : List (Nat × Event signature)}

/-- All objects that stand, or stood later, where that of the task stood are for the connection. -/
def Keeps (s : State) (task c : Nat) : Prop := ∀ u d, task ≤ u → s.conOf u = some d → d = c

end servers

section sample
open UploadHistory

def sampleServer : Config := ⟨1,1,calm [],sampleMd5⟩

def sampleArrived (store : Store) (b : Bytes) : State := {State.start store with
  accepted := 1, registered := [0], conns := Function.update (fun _ => ⟨[],false,[]⟩) 0 ⟨b,false,[]⟩}

theorem sample_arrived (store : Store) (b : Bytes) :
    Relation.ReflTransGen (ServerStep sampleServer) (.start store) (sampleArrived store b) := by
  have reported : Reported sampleServer {State.start store with backlog := 1} [.listenfd] :=
    reported_alone (readable_listenfd Nat.one_pos rfl)
  refine .head (.client rfl .connect) ?_
  refine .head (.loop rfl (.epollWait rfl reported)) ?_
  refine .head (.loop rfl (.accept rfl Nat.one_pos)) ?_
  refine .head (.loop rfl (.roundOver rfl)) ?_
  exact .single (.client rfl (@ClientStep.send _ 0 b Nat.one_pos rfl))

/-- One client is served as its request is handled. -/
theorem sample_served {store : Store} {b : Bytes} {table : List Row} (some : b ≠ [])
    (ran : ((respond [] 0).run 100 (process sampleMd5) ⟨⟨b,false,[]⟩,store⟩).any (fun x =>
      x.1 = .ok () ∧ x.2.store.table = table) = true) :
    ∃ s, Relation.ReflTransGen (ServerStep sampleServer) (.start store) s ∧ s.store.table = table := by
  obtain ⟨⟨out,w⟩,finished,done⟩ := (Option.any_eq_true _ _).mp ran
  obtain ⟨rfl,stored⟩ := of_decide_eq_true done
  have readable (fd : Fd) : Readable sampleServer (sampleArrived store b) fd ↔ fd = .connfd 0 :=
    readable_connfd (s := sampleArrived store b) rfl rfl (.inl some) fd
  have posts := @can_post sampleServer (sampleArrived store b) 0 rfl rfl readable some (show 0 ≠ 1 from zero_ne_one)
  have pops : ServerStep sampleServer ((sampleArrived store b).posted 0) _ := can_pop rfl Nat.one_pos rfl rfl
  have reached := reaches_of_runs (Responder.run_sound (respond_within [] 0) 100 _ _ _ _ finished)
  obtain ⟨taken,read,_,run⟩ := @can_process sampleServer (((sampleArrived store b).posted 0).popped 0 0 sampleMd5)
    (fun _ _ => True) 0 0 0 .destroyed _ _ w rfl rfl rfl trivial (fun _ _ _ _ _ _ _ _ => trivial) reached
  exact ⟨_,(sample_arrived store b).trans (posts.trans (.head pops run)),stored⟩

end sample

end FilediskServer.RowOrigins
