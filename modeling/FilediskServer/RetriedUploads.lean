import FilediskServer.ChunkOrder
import FilediskServer.DirectoryNames

/-! An upload that is sent again after it was handled: the content is known then, and another row
is inserted for it. -/
namespace FilediskServer.RetriedUploads
open Interaction Bytes CusInfo Redis Filetree Disk Calls SocketIO FileTask FileTaskRuns UploadHistory Downloads
open KeyTypes TruncatedRequests TableRows DownloadRecords ChunkOrder DirectoryNames

/-- The index, path and size of the chunks that a finished download sends. -/
def Sends (cwd : File) (s : Store) (fh : Fileheader) (filename : Bytes) (userid : UInt64)
    (chunks : List Item) : Prop :=
  ∃ task conn w w', Runs (Sys (calm cwd) task) (getfilelist userid (toUnsigned fh.dirid) filename)
      ⟨conn,s⟩ (.ok chunks) w ∧
    Runs (Sys (calm cwd) task) (sendFiles fh filename chunks) w (.ok ()) w'

/-- Downloads of the directory and name send the same multiset of chunks from both stores. -/
def SameChunks (cwd : File) (s s' : Store) (dirid : Int) (filename : Bytes) : Prop :=
  ∀ fh userid chunks chunks', fh.dirid = dirid → Sends cwd s fh filename userid chunks →
    Sends cwd s' fh filename userid chunks' → chunks.Perm chunks'

/-- What Redis holds has changed since, as when keys have expired. -/
def later (s : Store) (keys : Keyspace) : Store := {s with redis := {s.redis with keys := keys}}

/-- The request is let in and its content is known, or can be received. -/
structure Repeats (s : Store) (u : Upload) (beyond : Bytes) : Prop where
  named : 0 ≤ namelenOf u.record ∧ namelenOf u.record + 1 < 2 ^ 31
  content : ∃ userid, SessionOf s.redis.keys (uuidOf u.record beyond) userid ∧
    (known s (hashPath u.fileheader.md5) userid = some true ∨
      known s (hashPath u.fileheader.md5) userid = some false ∧ 0 ≤ u.fileheader.filelen)

section chunks
variable {cwd : File} {s s' : Store} {fh : Fileheader} {filename : Bytes} {userid : UInt64}
  {chunks : List Item}

theorem download_sends {task : Nat} {conn : Conn} {w' : World}
    (run : Runs (Sys (calm cwd) task) (downloadfile fh filename userid) ⟨conn,s⟩ (.ok ()) w') :
    ∃ chunks, Sends cwd s fh filename userid chunks := by
  obtain ⟨out,w,first,rest⟩ := runs_bind.mp run
  match out with
  | .ok chunks => exact ⟨chunks,task,conn,w,w',first,rest⟩
  | .error e => cases rest.1

theorem sends_iff : Sends cwd s fh filename userid chunks ↔
    ∃ cells : List Cells, cells.Perm ((selected s.table userid (toUnsigned fh.dirid) filename).map Row.cells) ∧
      cells.mapM Cells.item = some chunks := by
  constructor
  · rintro ⟨task,conn,w,_,fetched,-⟩
    exact fetched_iff.mp ⟨w,fetched⟩
  · intro rows
    obtain ⟨w,fetched⟩ := (@fetched_iff cwd 0 ⟨⟨[],true,[]⟩,s⟩ filename userid _ chunks).mpr rows
    obtain ⟨_,w',sent,rfl,-⟩ := @can_sendFiles (calm cwd) 0 fh filename trivial chunks w
    exact ⟨0,_,w,w',fetched,sent⟩

theorem filterMap_of_mapM {cells : List Cells} (found : cells.mapM Cells.item = some chunks) :
    chunks = cells.filterMap Cells.item := by
  have each := mapM_item_forall₂.mp found
  clear found
  induction each with
  | nil => rfl
  | cons item _ ih => rw [List.filterMap_cons_some item,← ih]

theorem sends_perm (sends : Sends cwd s fh filename userid chunks) : chunks.Perm
    (((selected s.table userid (toUnsigned fh.dirid) filename).map Row.cells).filterMap Cells.item) := by
  obtain ⟨cells,order,found⟩ := sends_iff.mp sends
  rw [filterMap_of_mapM found]
  exact order.filterMap _

theorem sends_length (sends : Sends cwd s fh filename userid chunks) :
    chunks.length = (selected s.table userid (toUnsigned fh.dirid) filename).length := by
  obtain ⟨cells,order,found⟩ := sends_iff.mp sends
  rw [← (mapM_item_forall₂.mp found).length_eq,order.length_eq,List.length_map]

theorem can_be_sent (indexed : ∀ row ∈ s.table, row.index ≠ none) :
    ∃ chunks, Sends cwd s fh filename userid chunks := by
  obtain ⟨chunks,found⟩ := (rows_fetched (.refl ((selected s.table userid (toUnsigned fh.dirid) filename).map
    Row.cells))).mpr fun row member => indexed row (List.mem_filter.mp member).1
  exact ⟨chunks,sends_iff.mpr ⟨_,.refl _,found⟩⟩

theorem same_of_table {dirid : Int} (table : s'.table = s.table) : SameChunks cwd s s' dirid filename := by
  intro fh userid chunks chunks' _ sends sends'
  have order := sends_perm sends'
  rw [table] at order
  exact (sends_perm sends).trans order.symm

/-- Another row for the same header is sent too, unless the directory is negative. -/
theorem same_iff_of_row {row : Row} (inside : row.dirid < 2 ^ 63) (index : row.index ≠ none)
    (indexed : ∀ row ∈ s.table, row.index ≠ none) (table : s'.table = s.table ++ [row]) :
    SameChunks cwd s s' row.dirid row.filepath ↔ row.dirid < 0 := by
  have grown (userid : UInt64) : selected s'.table userid (toUnsigned row.dirid) row.filepath =
      selected s.table userid (toUnsigned row.dirid) row.filepath ++
        [row].filter (Row.matchesFile userid (toUnsigned row.dirid) row.filepath) := by
    rw [table]
    exact List.filter_append ..
  constructor
  · intro same
    by_contra positive
    have fits : Row.matchesFile row.userid (toUnsigned row.dirid) row.filepath row = true := by
      simpa [Row.matchesFile] using (toUnsigned_eq_iff inside).mpr (by omega)
    have all : ∀ row ∈ s'.table, row.index ≠ none := by
      rw [table,List.forall_mem_append,List.forall_mem_singleton]
      exact ⟨indexed,index⟩
    obtain ⟨chunks,sends⟩ := @can_be_sent cwd s ⟨row.dirid,fun _ => 0,0,false,0⟩ row.filepath row.userid indexed
    obtain ⟨chunks',sends'⟩ := @can_be_sent cwd s' ⟨row.dirid,fun _ => 0,0,false,0⟩ row.filepath row.userid all
    have lengths := (same _ _ _ _ rfl sends sends').length_eq
    rw [sends_length sends,sends_length sends',grown,List.filter_cons_of_pos fits] at lengths
    simp at lengths
  · rintro negative fh userid chunks chunks' directory sends sends'
    have misses : ¬ Row.matchesFile userid (toUnsigned row.dirid) row.filepath row = true := by
      intro fits
      simp only [Row.matchesFile,Bool.and_eq_true,beq_iff_eq] at fits
      have positive := (toUnsigned_eq_iff inside).mp fits.1.2
      omega
    have order := sends_perm sends'
    rw [directory,grown,List.filter_cons_of_neg misses,List.filter_nil,List.append_nil,← directory] at order
    exact (sends_perm sends).trans order.symm

end chunks

section again
variable {cwd : File} {md5 : Bytes → Digest} {task : Nat} {u : Upload} {output : Bytes} {s s' : Store}
  {conn : Conn} {out : Except Halt Unit}

theorem session_unique {k : Keyspace} {uuid : Bytes} {userid userid' : UInt64}
    (session : SessionOf k uuid userid) (session' : SessionOf k uuid userid') : userid = userid' := by
  obtain ⟨fields,_,held,-,number⟩ := session.live
  obtain ⟨fields',_,held',-,number'⟩ := session'.live
  cases held.symm.trans held'
  exact Except.ok.inj (number.symm.trans number')

/-- What ends `isfileexits` with an error leaves it open whether the content is known. -/
theorem unknown_of_error {path : Bytes} {userid : UInt64} {e : Halt} {r : Redis.State}
    (check : Exists (calm cwd) s path userid (.error e) r) : known s path userid = none := by
  unfold known
  cases check with
  | failed asked => rw [← asked.1]
  | tooMany asked large =>
    rw [← asked.1]
    exact if_neg (not_lt.mpr large)
  | noResult asked fails => exact fails.elim

theorem refused_beyond {w' : World} (refused : Refused (calm cwd) ⟨u.conn output,s⟩ out w') :
    ∃ beyond, ¬ Repeats s u beyond := by
  have taken {got : Bytes} {c : Conn} (record : Received (calm cwd) (u.conn output) sizeofDatauuid got c) :
      filled sizeofDatauuid got = u.record := by
    obtain ⟨rfl,-⟩ := record.whole rfl u.recordSize fun _ _ => not_false
    exact filled_of_length u.recordSize
  have replied {beyond : Bytes} {r : Except RedisError (List (Bytes × Bytes))} {r' : Redis.State}
      (asked : (calm cwd).redis s.redis (.hgetall (uuidOf u.record beyond)) r r') (repeats : Repeats s u beyond) :
      ∃ fields userid, r = .ok fields ∧ fields ≠ [] ∧ stoull (lookup fields (ascii "userid")) = .ok userid := by
    obtain ⟨userid,session,-⟩ := repeats.content
    obtain ⟨fields,some,number,only⟩ := @session_typed s.redis.keys s.redis.added _ _ session
    exact ⟨fields,userid,((only _ _).mp asked).1,some,number⟩
  cases refused with
  | @failed _ beyond _ _ _ record asked =>
    rw [taken record] at asked
    refine ⟨beyond,fun repeats => ?_⟩
    obtain ⟨_,_,same,-⟩ := replied asked repeats
    cases same
  | @unknown _ beyond _ _ _ record asked =>
    rw [taken record] at asked
    refine ⟨beyond,fun repeats => ?_⟩
    obtain ⟨_,_,same,some,-⟩ := replied asked repeats
    cases same
    exact some rfl
  | @notNumber _ beyond _ _ _ _ record asked bad =>
    rw [taken record] at asked
    refine ⟨beyond,fun repeats => ?_⟩
    obtain ⟨_,_,same,-,number⟩ := replied asked repeats
    cases same
    rw [bad] at number
    cases number
  | @badLength _ beyond _ _ _ _ record _ _ bad =>
    rw [taken record] at bad
    exact ⟨beyond,fun repeats => bad repeats.named⟩
  | noRoom _ _ _ _ _ full => exact absurd trivial (full.resolve_left id)

/-- The second time a row is inserted exactly if the request is let in and its content is known or
can be received. -/
theorem second_cases (again : Runs (Sys (calm cwd) task) (process md5) ⟨u.conn output,s⟩ out ⟨conn,s'⟩) :
    ∃ beyond, (s'.table = s.table ∧ ¬ Repeats s u beyond) ∨ Repeats s u beyond ∧ ∃ userid,
      s'.table = s.table ++ [newRow u.fileheader u.filename userid] := by
  have reads (c : Conn) (_ : u.body.length < c.input.length) : ¬ (calm cwd).readFails c := not_false
  have answers (s : Redis.State) (c : Command) (r : Except RedisError c.Reply) (s' : Redis.State)
      (executed : (calm cwd).redis s c r s') : failing s c r s' := .inl executed
  rcases request_cases answers reads again with refused | ⟨beyond,userid,sent,named,live,done⟩
  · obtain ⟨beyond,not⟩ := refused_beyond refused
    exact ⟨beyond,.inl ⟨refused_table refused,not⟩⟩
  · refine ⟨beyond,?_⟩
    cases done with
    | notSaved saved =>
      refine .inl ⟨saved_table saved,fun repeats => ?_⟩
      obtain ⟨userid',live',content⟩ := repeats.content
      obtain rfl := session_unique live live'
      cases saved with
      | unanswered check =>
        rw [unknown_of_error check] at content
        simp at content
      | noMemory check _ why =>
        rw [exists_known answers check] at content
        obtain ⟨-,positive⟩ := content.resolve_left (by simp)
        exact why.elim (fun negative => by omega) fun fails => absurd trivial (fails.resolve_left id)
    | notAdded saved inserted | added saved inserted =>
      have content : known s (hashPath u.fileheader.md5) userid = some true ∨
          known s (hashPath u.fileheader.md5) userid = some false ∧ 0 ≤ u.fileheader.filelen := by
        cases saved with
        | known check => exact .inl (exists_known answers check)
        | stored check _ positive => exact .inr ⟨exists_known answers check,positive⟩
      have kept := saved_table saved
      refine .inr ⟨⟨named,userid,live,content⟩,userid,?_⟩
      cases inserted with
      | done => rw [kept]
      | lost fails => exact fails.elim

end again

theorem history_indexed {md5 : Bytes → Digest} {cwd : File} {past : List Handling} {s : Store}
    (history : History md5 cwd past s) : ∀ row ∈ s.table, row.index ≠ none := by
  obtain ⟨table,rows⟩ := history_rows history
  intro row member
  rw [table] at member
  obtain ⟨h,inside,found⟩ := List.mem_filterMap.mp member
  obtain ⟨userid,rfl⟩ := rows h inside row found
  exact Option.some_ne_none _

/-- The same request once more, with whatever Redis then holds: downloads are the same exactly if the
directory is negative or the request does not come to its insert. `beyond` is the memory behind the
record, which a key without a NUL runs on into. -/
theorem retry_keeps_iff {md5 : Bytes → Digest} {cwd : File} {past : List Handling} {s s₁ s₂ : Store}
    {u : Upload} {keys : Keyspace} {task : Nat} {output : Bytes} {out : Except Halt Unit} {conn : Conn}
    (history : History md5 cwd past s) (once : Handles md5 cwd past.length u s s₁)
    (again : Runs (Sys (calm cwd) task) (process md5) ⟨u.conn output,later s₁ keys⟩ out ⟨conn,s₂⟩) :
    ∃ beyond, SameChunks cwd s₁ s₂ u.fileheader.dirid u.filename ↔
      u.fileheader.dirid < 0 ∨ ¬ Repeats (later s₁ keys) u beyond := by
  obtain ⟨beyond,⟨table,not⟩ | ⟨repeats,userid,table⟩⟩ := second_cases again
  · exact ⟨beyond,iff_of_true (same_of_table table) (.inr not)⟩
  · have directory : u.fileheader.dirid < 2 ^ 63 := dirid_lt u.headerSize
    have indexed := history_indexed (history.next once)
    have same := @same_iff_of_row cwd s₁ s₂ (newRow u.fileheader u.filename userid) directory
      (Option.some_ne_none _) indexed table
    refine ⟨beyond,same.trans ?_⟩
    exact ⟨.inl,fun condition => condition.resolve_right fun not => not repeats⟩

section sample

/-- Four hours later: the entry of user 1 has expired. -/
def sampleLater : Keyspace := fun key => if key = ascii "1" then none else sampleStored.redis.keys key

theorem sampleLater_expired : Expired sampleStored.redis.keys sampleLater := by
  intro key
  by_cases first : key = ascii "1"
  · subst first
    have held : (sampleStored.redis.keys (ascii "1")).any (·.expires) = true := by decide +kernel
    obtain ⟨e,there,expires⟩ := (Option.any_eq_true _ _).mp held
    exact .inr ⟨if_pos rfl,e,there,expires⟩
  · exact .inl (if_neg first)

theorem sample_repeated : ∃ out conn s₂, Runs (Sys (calm []) 1) (process sampleMd5)
    ⟨sampleFirst.conn [],later sampleStored sampleLater⟩ out ⟨conn,s₂⟩ ∧
    s₂.table = sampleStored.table ++ [newRow sampleFirst.fileheader sampleFirst.filename 1] := by
  have ran : ((respond [] 1).run 100 (process sampleMd5) ⟨sampleFirst.conn [],later sampleStored sampleLater⟩).map
      (·.2.store.table) = some (sampleStored.table ++ [newRow sampleFirst.fileheader sampleFirst.filename 1]) := by
    decide +kernel
  obtain ⟨⟨out,conn,s₂⟩,finished,table⟩ := Option.map_eq_some_iff.mp ran
  exact ⟨out,conn,s₂,Responder.run_sound (respond_within [] 1) _ _ _ _ _ finished,table⟩

theorem sample_retry_keeps_iff : ∃ s₂ beyond,
    SameChunks [] sampleStored s₂ sampleFirst.fileheader.dirid sampleFirst.filename ↔
      sampleFirst.fileheader.dirid < 0 ∨ ¬ Repeats (later sampleStored sampleLater) sampleFirst beyond := by
  obtain ⟨_,_,s₂,again,-⟩ := sample_repeated
  exact ⟨s₂,retry_keeps_iff (.start sampleKeys) sampleStored_handled.1 again⟩

/-- The content is found, and the download sends its chunk twice. -/
theorem chunk_repeated : ¬ ∀ (md5 : Bytes → Digest) (cwd : File) (past : List Handling) (s s₁ s₂ : Store)
    (u : Upload) (keys : Keyspace) (task : Nat) (output : Bytes) (out : Except Halt Unit) (conn : Conn),
    History md5 cwd past s → Handles md5 cwd past.length u s s₁ → Expired s₁.redis.keys keys →
    Runs (Sys (calm cwd) task) (process md5) ⟨u.conn output,later s₁ keys⟩ out ⟨conn,s₂⟩ →
    SameChunks cwd s₁ s₂ u.fileheader.dirid u.filename := by
  intro claim
  obtain ⟨out,conn,s₂,again,table⟩ := sample_repeated
  have same := claim _ _ _ _ _ _ _ _ _ _ _ _ (.start sampleKeys) sampleStored_handled.1 sampleLater_expired again
  have indexed := history_indexed (.next (.start sampleKeys) sampleStored_handled.1)
  have negative := (@same_iff_of_row [] sampleStored s₂ (newRow sampleFirst.fileheader sampleFirst.filename 1)
    (by decide +kernel) (Option.some_ne_none _) indexed table).mp same
  exact absurd negative (by decide +kernel)

end sample

end FilediskServer.RetriedUploads
