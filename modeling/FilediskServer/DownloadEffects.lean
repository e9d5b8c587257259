import FilediskServer.Library.SqlText
import FilediskServer.Downloads

/-! What a download leaves behind: `open` with `O_CREAT` makes an empty file of the name that
the client gave, where there was none. -/
namespace FilediskServer.DownloadEffects
open Interaction Bytes CusInfo Redis Filetree Disk Calls SocketIO FileTask FileTaskRuns UploadHistory
open Downloads

/-- No file is opened for the request: the stack has no room for its name, `open` has no file
of that name, no row matches, or one without an index ends the server. -/
inductive Unopened (k : Kernel) (table : List Row) (userid : UInt64) (q : Download) : Prop
  | noRoom (full : ¬ k.arrays (namelenOf q.record + 1).toNat)
  | noFile (closed : ¬ k.opens q.filename)
  | noRow (none : selected table userid (toUnsigned q.fileheader.dirid) q.filename = [])
  | noIndex (row : Row) (member : row ∈ selected table userid (toUnsigned q.fileheader.dirid) q.filename)
      (null : row.index = none)

theorem sentFiles_store {env : Env} {fh : Fileheader} {filename : Bytes}
    {list : List (Int × Bytes × UInt64)} {w w' : World}
    (present : list ≠ [] → env.kernel.opens filename → w.store.files (resolve env.cwd filename) ≠ none)
    (sent : SentFiles env fh filename list w w') : w'.store = w.store := by
  induction sent with
  | nil | notOpened => rfl
  | cons first _ ih =>
    cases first with
    | mk opened mapped size headed sent =>
      rw [ih (by simp)]
      dsimp only
      rw [Files.create_present _ (present (by simp) opened)]

section download
variable {env : Env} {task : Nat} {md5 : Bytes → Digest} {q : Download} {uuid output : Bytes}
  {userid : UInt64} {s : Store}

theorem download_keeps (answers : env.redis = typed) (reads : ∀ c, ¬ env.readFails c)
    (session : SessionOf s.redis.keys uuid userid) (key : ∀ beyond, uuidOf q.record beyond = uuid)
    (harmless : s.files (resolve env.cwd q.filename) ≠ none ∨ Unopened env.kernel s.table userid q)
    {out : Except Halt Unit} {w' : World}
    (run : Runs (Sys env task) (process md5) ⟨q.conn output,s⟩ out w') : w'.store = s := by
  obtain ⟨sent,-,full | ⟨room,done⟩⟩ := download_cases answers reads session key run
  · rw [full.same]
  cases done with
  | noResult | null => rfl
  | @files rows list w' order items sent =>
    refine sentFiles_store (fun some opened => ?_) sent
    rcases harmless with present | unopened
    · exact present
    cases unopened with
    | noRoom full => exact absurd room full
    | noFile closed => exact absurd opened closed
    | noRow none =>
      -- Without rows there is nothing to send.
      rw [none,List.map_nil,List.perm_nil] at order
      rw [order] at items
      exact absurd (Option.some.inj items).symm some
    | noIndex row member null => exact absurd null ((rows_fetched order).mp ⟨list,items⟩ row member)

/-- Downloading leaves files, table and keys as they were exactly when the name the client
gave is that of a file, or no file is opened. -/
theorem download_keeps_iff (answers : env.redis = typed) (reads : ∀ c, ¬ env.readFails c)
    (session : SessionOf s.redis.keys uuid userid) (key : ∀ beyond, uuidOf q.record beyond = uuid) :
    (∀ out w', Runs (Sys env task) (process md5) ⟨q.conn output,s⟩ out w' → w'.store = s) ↔
      s.files (resolve env.cwd q.filename) ≠ none ∨ Unopened env.kernel s.table userid q := by
  refine ⟨fun kept => ?_,fun harmless out w' run => download_keeps answers reads session key harmless run⟩
  by_contra harmful
  obtain ⟨absent,opened⟩ := not_or.mp harmful
  have room := Classical.not_not.mp fun full => opened (.noRoom full)
  have opens := Classical.not_not.mp fun closed => opened (.noFile closed)
  have some := fun none => opened (.noRow none)
  have indexed : ∀ row ∈ selected s.table userid (toUnsigned q.fileheader.dirid) q.filename,
      row.index ≠ none := fun row member null => opened (.noIndex row member null)
  push Not at absent
  obtain ⟨list,found⟩ := (rows_fetched (.refl _)).mpr indexed
  have nonempty : list ≠ [] := by
    obtain ⟨row,rest,rows⟩ := List.exists_cons_of_ne_nil some
    rw [rows,List.map_cons] at found
    obtain ⟨first,others,-,-,rfl⟩ := mapM_item_cons found
    exact List.cons_ne_nil _ _
  obtain ⟨out,w',run,-,-,files⟩ : Can (Sys env task) (process md5) _ ⟨q.conn output,s⟩ :=
    can_process answers session key room (.refl _) found (can_sendFiles opens list)
  rw [if_neg nonempty,kept out w' run] at files
  have created := congrFun files (resolve env.cwd q.filename)
  rw [Files.create_self] at created
  dsimp only at created
  rw [absent] at created
  cases created

end download

theorem sampleStored_session : SessionOf sampleStored.redis.keys (ascii "s1") 1 := by
  have held : sampleStored.redis.keys (ascii "s1") = some
      ⟨.hash [(ascii "username",ascii "ann"),(ascii "userid",ascii "1")],false⟩ := by decide +kernel
  exact ⟨_,_,held,by simp,by decide⟩

theorem sample_keeps_iff : (∀ out w', Runs (Sys (calm []) 1) (process sampleMd5)
      ⟨sampleDownload.conn [],sampleStored⟩ out w' → w'.store = sampleStored) ↔
    sampleStored.files (resolve [] sampleDownload.filename) ≠ none ∨
      Unopened .ample sampleStored.table 1 sampleDownload :=
  download_keeps_iff rfl (fun _ => not_false) sampleStored_session sample_key

/-- The user who uploaded `"f"` and downloads it leaves an empty file of that name. -/
theorem download_creates : ¬ ∀ (md5 : Bytes → Digest) (cwd : File) (q : Download) (uuid output : Bytes)
    (userid : UInt64) (s : Store), SessionOf s.redis.keys uuid userid →
    (∀ beyond, uuidOf q.record beyond = uuid) → SqlText.quote ∉ q.filename →
    SqlText.backslash ∉ q.filename → ∀ (task : Nat) (out : Except Halt Unit) (w' : World),
    Runs (Sys (calm cwd) task) (process md5) ⟨q.conn output,s⟩ out w' → w'.store = s := by
  intro claim
  have left : ((respond [] 1).run 100 (process sampleMd5) ⟨sampleDownload.conn [],sampleStored⟩).map
      (fun end' => end'.2.store.files [ascii "f"]) = some (some []) := by
    decide +kernel
  obtain ⟨⟨out,w'⟩,ran,created⟩ := Option.map_eq_some_iff.mp left
  have kept := claim sampleMd5 [] sampleDownload _ [] 1 sampleStored sampleStored_session sample_key
    (by decide +kernel) (by decide +kernel) 1 out w' (Responder.run_sound (respond_within [] 1) _ _ _ _ _ ran)
  have absent : sampleStored.files [ascii "f"] = none := by decide +kernel
  dsimp only at created
  rw [kept,absent] at created
  cases created

end FilediskServer.DownloadEffects
