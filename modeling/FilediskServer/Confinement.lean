import FilediskServer.Downloads

/-! What a download can tell about the disk: two disks that look alike on some files give
the same answers as long as nothing of any other file is mapped and sent. -/
namespace FilediskServer.Confinement
open Interaction Bytes CusInfo Redis Filetree Disk Calls SocketIO FileTask FileTaskRuns UploadHistory
open Downloads

/-- Everything that may be written to the connection in answer to a request. -/
def outputs (env : Env) (task : Nat) (md5 : Bytes → Digest) (q : Request) (s : Store) : Set Bytes :=
  {output | ∃ out w', Runs (Sys env task) (process md5) ⟨q.conn [],s⟩ out w' ∧ w'.conn.output = output}

/-- The files at the paths that a user's rows name. -/
def owned (cwd : File) (table : List Row) (userid : UInt64) : Set File :=
  {file | ∃ row ∈ table, row.userid = userid ∧ resolve cwd row.hashfilepath = file}

def AgreeOn (files : Set File) (d₁ d₂ : Files) : Prop :=
  ∀ file ∈ files, (d₁ file).map Blocks.content = (d₂ file).map Blocks.content

structure Alike (files : Set File) (w v : World) : Prop where
  conn : v.conn = w.conn
  redis : v.store.redis = w.store.redis
  table : v.store.table = w.store.table
  agree : AgreeOn files w.store.files v.store.files

section confined
variable {env : Env} {task : Nat} {files : Set File}

end confined

section stream
variable {env : Env} {task : Nat}

end stream

section download
variable {env : Env} {md5 : Bytes → Digest} {cwd : File} {past : List Handling} {s : Store}
  {q : Download} {uuid : Bytes} {userid : UInt64} {redis : Redis.State}

end download

end FilediskServer.Confinement
