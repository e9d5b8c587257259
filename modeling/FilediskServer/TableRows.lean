import FilediskServer.TruncatedRequests
import Mathlib.Data.List.Forall2

/-! The rows of `filetree` as two servers insert them: `DirAdd` those of directories, uploads
those of files. They lie in one table and only their values tell them apart. -/
namespace FilediskServer.TableRows
open Interaction Bytes CusInfo Redis Filetree Disk Calls SocketIO FileTask FileTaskRuns UploadHistory
open Downloads TruncatedRequests

/-- The row that the statement of `DirAdd`, read as it was meant, inserts; the columns it does
not set have their defaults. -/
def directoryRow (userid : UInt64) (dirname : Bytes) (dirid : Int) : Row :=
  ⟨userid,dirname,none,[],(toUnsigned dirid).toNat,0⟩

inductive Origin
  | dirAdd
  | upload
  deriving DecidableEq

/-- The store, and which insert each row of its table is from. -/
structure Filled where
  store : Store
  origins : List Origin

inductive Act
  | dirAdd (userid : UInt64) (dirname : Bytes) (dirid : Int)
  | upload (q : Upload)
  /-- a login, a download, a key that expires -/
  | elsewhere

/-- Redis answers by type or fails, and reading does not fail before the file header is
complete. All else may fail. -/
structure Serves (env : Env) (q : Upload) : Prop where
  answers : ∀ s c r s', env.redis s c r s' → failing s c r s'
  reads : ∀ c : Conn, q.body.length < c.input.length → ¬ env.readFails c

inductive Does (md5 : Bytes → Digest) : Act → Filled → Filled → Prop
  | dirAdd {userid : UInt64} {dirname : Bytes} {dirid : Int} (f : Filled) :
      Does md5 (.dirAdd userid dirname dirid) f
        ⟨{f.store with table := f.store.table ++ [directoryRow userid dirname dirid]},
          f.origins ++ [.dirAdd]⟩
  | upload {q : Upload} {f : Filled} {env : Env} {task : Nat} {output : Bytes}
      {out : Except Halt Unit} {conn : Conn} {s : Store} (serves : Serves env q)
      (run : Runs (Sys env task) (process md5) ⟨q.conn output,f.store⟩ out ⟨conn,s⟩) :
      Does md5 (.upload q) f
        ⟨s,f.origins ++ List.replicate (s.table.length - f.store.table.length) .upload⟩
  | elsewhere {f : Filled} (redis : Redis.State) (files : Files) :
      Does md5 .elsewhere f ⟨⟨redis,f.store.table,files⟩,f.origins⟩

structure Doing where
  act : Act
  before : Filled
  after : Filled

inductive History (md5 : Bytes → Digest) : List Doing → Filled → Prop
  | start (redis : Redis.State) (files : Files) : History md5 [] ⟨⟨redis,[],files⟩,[]⟩
  | next {past : List Doing} {f f' : Filled} {act : Act} (earlier : History md5 past f)
      (done : Does md5 act f f') : History md5 (past ++ [⟨act,f,f'⟩]) f'

/-- The content is known, or some bytes of the declared length have its digest. -/
def Content (md5 : Bytes → Digest) (s : Store) (fh : Fileheader) (userid : UInt64) : Prop :=
  known s (hashPath fh.md5) userid = some true ∨
    known s (hashPath fh.md5) userid = some false ∧ 0 ≤ fh.filelen ∧
      ∃ b : Bytes, b.length = fh.filelen.toNat ∧ md5 b = fh.md5

structure Inserts (md5 : Bytes → Digest) (s : Store) (q : Upload) (userid : UInt64) : Prop where
  named : 0 ≤ namelenOf q.record ∧ namelenOf q.record + 1 < 2 ^ 31
  session : ∃ beyond, SessionOf s.redis.keys (uuidOf q.record beyond) userid
  content : Content md5 s q.fileheader userid

section steps
variable {md5 : Bytes → Digest} {q : Upload} {f f' : Filled} {act : Act} {past : List Doing}

theorem accepted_named {env : Env} {output filename : Bytes} {s : Store} {userid : UInt64}
    {fh : Fileheader} {w : World} (accepted : Accepted env ⟨q.conn output,s⟩ userid filename fh w)
    (reads : ∀ c : Conn, q.body.length < c.input.length → ¬ env.readFails c) :
    0 ≤ namelenOf q.record ∧ namelenOf q.record + 1 < 2 ^ 31 := by
  cases accepted with
  | mk record session answer low high =>
    obtain ⟨rfl,-⟩ := record.whole rfl q.recordSize fun c more => reads c
      (by simp only [List.length_append] at more; omega)
    rw [filled_of_length q.recordSize] at low high
    exact ⟨low,high⟩

theorem refused_table {env : Env} {w w' : World} {out : Except Halt Unit}
    (refused : Refused env w out w') : w'.store.table = w.store.table := by
  cases refused with
  | failed | unknown | notNumber | badLength | noRoom => rfl

theorem saved_table {env : Env} {task : Nat} {fh : Fileheader} {userid : UInt64} {w w' : World}
    {path : Except Halt Bytes} (saved : Saved env task md5 fh userid w path w') :
    w'.store.table = w.store.table := by
  cases saved with
  | unanswered | known | noMemory | stored => rfl

theorem saved_content {env : Env} {task : Nat} {fh : Fileheader} {userid : UInt64} {w w' : World}
    {path : Bytes} (answers : ∀ s c r s', env.redis s c r s' → failing s c r s')
    (saved : Saved env task md5 fh userid w (.ok path) w') : Content md5 w.store fh userid := by
  cases saved with
  | known check => exact .inl (exists_known answers check)
  | stored check answer positive size checked =>
    have content := checked_size checked positive size
    exact .inr ⟨exists_known answers check,positive,_,content,checked_right checked⟩

theorem uploaded_table {env : Env} {task : Nat} {fh : Fileheader} {filename : Bytes} {userid : UInt64}
    {w w' : World} {out : Except Halt Unit} (answers : ∀ s c r s', env.redis s c r s' → failing s c r s')
    (done : Uploaded env task md5 fh filename userid w out w') :
    w'.store.table = w.store.table ∨ Content md5 w.store fh userid ∧
      w'.store.table = w.store.table ++ [newRow fh filename userid] := by
  cases done with
  | notSaved saved => exact .inl (saved_table saved)
  | notAdded saved inserted | added saved inserted =>
    have kept := saved_table saved
    cases inserted with
    | done => exact .inr ⟨saved_content answers saved,by rw [kept]⟩
    | lost => exact .inl kept

/-- A request for an upload is refused, or it is let in with the user of a live session. -/
theorem request_cases {env : Env} {task : Nat} {output : Bytes} {s : Store} {out : Except Halt Unit} {w' : World}
    (answers : ∀ s c r s', env.redis s c r s' → failing s c r s')
    (reads : ∀ c : Conn, q.body.length < c.input.length → ¬ env.readFails c)
    (run : Runs (Sys env task) (process md5) ⟨q.conn output,s⟩ out w') :
    Refused env ⟨q.conn output,s⟩ out w' ∨ ∃ beyond userid sent,
      (0 ≤ namelenOf q.record ∧ namelenOf q.record + 1 < 2 ^ 31) ∧
      SessionOf s.redis.keys (uuidOf q.record beyond) userid ∧
      Uploaded env task md5 q.fileheader q.filename userid ⟨⟨q.body,q.ended,output ++ sent⟩,s⟩ out w' := by
  cases process_cases run with
  | refused refused => exact .inl refused
  | download accepted wanted =>
    obtain ⟨-,rfl,-⟩ := accepted_request accepted reads
    exact absurd (q.wanted.symm.trans wanted) (by simp)
  | upload accepted _ done =>
    have named := accepted_named accepted reads
    obtain ⟨rfl,rfl,beyond,sent,r,session,-,rfl⟩ := accepted_request accepted reads
    obtain ⟨live,rfl⟩ := session_failing answers session
    exact .inr ⟨beyond,_,sent,named,live,done⟩

theorem upload_cases (done : Does md5 (.upload q) f f') :
    (f'.store.table = f.store.table ∧ f'.origins = f.origins) ∨ ∃ userid, Inserts md5 f.store q userid ∧
      f'.store.table = f.store.table ++ [newRow q.fileheader q.filename userid] ∧
      f'.origins = f.origins ++ [.upload] := by
  cases done with
  | @upload _ _ env task output out conn s serves run =>
    dsimp only
    rcases request_cases serves.answers serves.reads run with refused | ⟨beyond,userid,sent,named,live,done⟩
    · have same : s.table = f.store.table := refused_table refused
      exact .inl ⟨same,by simp [same]⟩
    · have cases := uploaded_table serves.answers done
      dsimp only at cases
      rcases cases with same | ⟨content,grown⟩
      · exact .inl ⟨same,by simp [same]⟩
      · exact .inr ⟨userid,⟨named,⟨beyond,live⟩,content⟩,grown,by simp [grown]⟩

theorem matches_directory {userid owner dirid : UInt64} {filename dirname : Bytes} {parent : Int} :
    (directoryRow owner dirname parent).matchesFile userid dirid filename = true ↔
      owner = userid ∧ toUnsigned parent = dirid ∧ dirname = filename := by
  simp [Row.matchesFile,directoryRow,and_assoc,UInt64.toNat_inj]

/-- A row has no index exactly when it is that of a directory. -/
theorem history_unindexed (history : History md5 past f) (row : Row) :
    row ∈ f.store.table ∧ row.index = none ↔ ∃ h ∈ past, ∃ userid dirname dirid,
      h.act = .dirAdd userid dirname dirid ∧ row = directoryRow userid dirname dirid := by
  induction history with
  | start redis files => simp
  | @next past f f' act earlier done ih =>
    have grown : (row ∈ f'.store.table ∧ row.index = none) ↔
        (row ∈ f.store.table ∧ row.index = none) ∨ ∃ userid dirname dirid,
          act = .dirAdd userid dirname dirid ∧ row = directoryRow userid dirname dirid := by
      cases act with
      | dirAdd userid dirname dirid =>
        cases done with
        | dirAdd =>
          have null (same : row = directoryRow userid dirname dirid) : row.index = none := by rw [same]; rfl
          simp only [List.mem_append,List.mem_singleton,Act.dirAdd.injEq]
          constructor
          · rintro ⟨old | new,none⟩
            · exact .inl ⟨old,none⟩
            · exact .inr ⟨_,_,_,⟨rfl,rfl,rfl⟩,new⟩
          · rintro (⟨old,none⟩ | ⟨_,_,_,⟨rfl,rfl,rfl⟩,new⟩)
            · exact ⟨.inl old,none⟩
            · exact ⟨.inr new,null new⟩
      | upload q =>
        rcases upload_cases done with ⟨same,-⟩ | ⟨userid,-,table,-⟩
        · simp [same]
        · -- The insert of an upload sets the index.
          have indexed (same : row = newRow q.fileheader q.filename userid) : row.index ≠ none := by
            rw [same]
            exact Option.some_ne_none _
          simp only [table,List.mem_append,List.mem_singleton,reduceCtorEq,false_and,exists_false,or_false]
          constructor
          · rintro ⟨inside,null⟩
            exact ⟨inside.resolve_right fun new => indexed new null,null⟩
          · rintro ⟨inside,null⟩
            exact ⟨.inl inside,null⟩
      | elsewhere =>
        cases done with
        | elsewhere => simp
    rw [grown,ih]
    simp only [List.mem_append,List.mem_singleton,or_and_right,exists_or,exists_eq_left]

end steps

def Present (c : Cells) : Prop := c.index ≠ none ∧ c.hashfilepath ≠ none ∧ c.filesize ≠ none

theorem present_cells (row : Row) : Present row.cells ↔ row.index ≠ none :=
  ⟨And.left,fun indexed => ⟨indexed,Option.some_ne_none _,Option.some_ne_none _⟩⟩

section fetch
variable {md5 : Bytes → Digest} {env : Env} {me : Nat} {f : Filled} {past : List Doing} {c : Conn}

theorem getfilelist_returns {uid dirid : UInt64} {filename : Bytes}
    {out : Except Halt (List (Int × Bytes × UInt64))} {w' : World} (results : ¬ env.selectFails)
    (indexed : ∀ row ∈ selected f.store.table uid dirid filename, row.index ≠ none)
    (run : Runs (Sys env me) (getfilelist uid dirid filename) ⟨c,f.store⟩ out w') :
    ∃ filelist, out = .ok filelist := by
  have returns : Wp (Sys env me) (fun _ _ => True) (getfilelist uid dirid filename)
      (fun out _ => ∃ filelist, out = .ok filelist) ⟨c,f.store⟩ := by
    apply wp_getfilelist trivial fun fails => absurd fails results
    intro rows order
    obtain ⟨list,items⟩ := (rows_fetched order).mpr indexed
    exact ⟨list,by rw [items]; rfl⟩
  exact wp_runs run returns

/-- A client's download takes no NULL out of the table exactly when the name is not that of
a directory of the user in the same place. -/
theorem getfilelist_survives_iff (results : ¬ env.selectFails) (history : History md5 past f)
    (uid dirid : UInt64) (filename : Bytes) :
    ((∀ row ∈ selected f.store.table uid dirid filename, Present row.cells) ∧
      ∀ out w', Runs (Sys env me) (getfilelist uid dirid filename) ⟨c,f.store⟩ out w' →
        ∃ filelist, out = .ok filelist) ↔
      ∀ h ∈ past, ∀ parent, h.act = .dirAdd uid filename parent → toUnsigned parent ≠ dirid := by
  simp only [present_cells]
  constructor
  · rintro ⟨indexed,-⟩ h member parent act rfl
    obtain ⟨inside,null⟩ := (history_unindexed history _).mpr ⟨h,member,_,_,_,act,rfl⟩
    exact indexed _ (List.mem_filter.mpr ⟨inside,matches_directory.mpr ⟨rfl,rfl,rfl⟩⟩) null
  · intro apart
    have indexed (row : Row) (chosen : row ∈ selected f.store.table uid dirid filename) :
        row.index ≠ none := by
      intro null
      obtain ⟨inside,matched⟩ := List.mem_filter.mp chosen
      obtain ⟨h,member,_,_,parent,act,rfl⟩ := (history_unindexed history row).mp ⟨inside,null⟩
      obtain ⟨rfl,same,rfl⟩ := matches_directory.mp matched
      exact apart h member parent act same
    exact ⟨indexed,fun out w' run => getfilelist_returns results indexed run⟩

end fetch

def sampleDirectory : Filled :=
  ⟨{sampleStart with table := [] ++ [directoryRow 1 (ascii "docs") 0]},[] ++ [.dirAdd]⟩

theorem sampleDirectory_added (md5 : Bytes → Digest) : History md5
    ([] ++ [⟨.dirAdd 1 (ascii "docs") 0,⟨sampleStart,[]⟩,sampleDirectory⟩]) sampleDirectory :=
  .next (.start ⟨sampleKeys,[]⟩ fun _ => none) (.dirAdd ⟨sampleStart,[]⟩)

theorem sample_survives_iff :
    ((∀ row ∈ selected sampleDirectory.store.table 1 0 (ascii "f"), Present row.cells) ∧
      ∀ out w', Runs (Sys (calm []) 0) (getfilelist 1 0 (ascii "f"))
        ⟨⟨[],true,[]⟩,sampleDirectory.store⟩ out w' → ∃ filelist, out = .ok filelist) ↔
      ∀ h ∈ [] ++ [Doing.mk (.dirAdd 1 (ascii "docs") 0) ⟨sampleStart,[]⟩ sampleDirectory],
        ∀ parent, h.act = .dirAdd 1 (ascii "f") parent → toUnsigned parent ≠ 0 :=
  getfilelist_survives_iff not_false (sampleDirectory_added sampleMd5) 1 0 (ascii "f")

/-- User 1 adds the directory `"docs"` and asks to download it. -/
theorem directory_downloaded : ¬ ∀ (md5 : Bytes → Digest) (past : List Doing) (f : Filled),
    History md5 past f → ∀ (uid dirid : UInt64) (filename : Bytes),
    ∀ row ∈ selected f.store.table uid dirid filename, Present row.cells := by
  intro claim
  have present := claim sampleMd5 _ _ (sampleDirectory_added sampleMd5) 1 0 (ascii "docs")
    (directoryRow 1 (ascii "docs") 0) (by decide +kernel)
  exact present.1 rfl

/-- Rows of size 0 are those of directories, and the others have a positive size. -/
def Marked (f : Filled) : Prop := List.Forall₂ (fun (row : Row) origin =>
  (row.filesize = 0 ↔ origin = Origin.dirAdd) ∧ (origin ≠ .dirAdd → 0 < row.filesize))
    f.store.table f.origins

/-- An upload that declares no content comes to no insert. -/
def Proper (md5 : Bytes → Digest) (s : Store) : Act → Prop
  | .upload q => q.fileheader.filelen ≤ 0 → ∀ userid, ¬ Inserts md5 s q userid
  | _ => True

section sizes
variable {md5 : Bytes → Digest} {f f' : Filled} {act : Act} {past : List Doing} {q : Upload}

theorem marked_step (marked : Marked f) (done : Does md5 act f f') (proper : Proper md5 f.store act) :
    Marked f' := by
  cases act with
  | dirAdd userid dirname dirid =>
    cases done with
    | dirAdd => exact List.rel_append marked (.cons ⟨by simp [directoryRow],by simp⟩ .nil)
  | upload q =>
    rcases upload_cases done with ⟨table,origins⟩ | ⟨userid,inserts,table,origins⟩
    · rwa [Marked,table,origins]
    · have positive : 0 < q.fileheader.filelen := by
        by_contra empty
        exact proper (by omega) userid inserts
      rw [Marked,table,origins]
      exact List.rel_append marked (.cons ⟨by simp [newRow]; omega,fun _ => positive⟩ .nil)
  | elsewhere =>
    cases done with
    | elsewhere => exact marked

theorem can_redis {cwd : File} {me : Nat} {w : World} {c : Command}
    {post : Except Halt c.Reply → World → Prop}
    (after : ∀ reply s, post (.ok reply) ⟨w.conn,{w.store with redis := s}⟩)
    (thrown : ∀ e s, post (.error (.redis e)) ⟨w.conn,{w.store with redis := s}⟩) :
    Can (Sys (calm cwd) me) (FileTask.redis c) post w := by
  cases answer : (exec w.store.redis.keys c).1 with
  | ok reply => exact can_bind (can_ask ⟨_,⟨answer.symm,rfl⟩,rfl⟩ (can_ret (after _ _)))
  | error e => exact can_bind (can_ask ⟨_,⟨answer.symm,rfl⟩,rfl⟩ (can_throw (thrown _ _)))

theorem can_save {cwd : File} {me : Nat} {fh : Fileheader} {userid : UInt64} {w : World}
    (empty : fh.filelen ≤ 0) (content : Content md5 w.store fh userid) :
    Can (Sys (calm cwd) me) (savefile md5 fh userid)
      (fun out w' => out = .ok (hashPath fh.md5) ∧ w'.store.table = w.store.table) w := by
  rcases content with cached | ⟨absent,positive,b,size,right⟩
  · exact can_bind (can_known (fun _ _ _ _ => id) cached (can_bind (can_send _ _ (can_ret ⟨rfl,rfl⟩))))
  -- Unknown content is received before it is inserted; only of length 0 is it such an upload.
  obtain zero : fh.filelen = 0 := by omega
  obtain rfl : b = [] := List.length_eq_zero_iff.mp (by omega)
  refine can_bind (can_known (fun _ _ _ _ => id) absent (can_bind (can_send _ _ ?_)))
  simp only [After,Bool.false_eq_true,if_false,if_neg (not_lt.mpr positive)]
  refine can_bind (can_ask (r := some []) ⟨rfl,.inl ⟨[],rfl,size,trivial⟩⟩ ?_)
  refine can_bind (can_loop (can_bind (can_receive_whole [] (List.nil_append _).symm (by rw [zero]; rfl) ?_)))
  dsimp only [After]
  rw [if_pos (show md5 (overlay [] 0 []) = fh.md5 from right)]
  refine can_ret (can_ret ?_)
  refine can_bind (can_ask (r := some _) (.inl ⟨rfl,trivial,rfl⟩) ?_)
  refine can_bind (can_ask (c := .writeFile (some _) _) (r := ()) (.inl ⟨trivial,rfl⟩) ?_)
  exact can_bind (can_ask (r := ()) rfl (can_ret ⟨rfl,rfl⟩))

theorem upload_inserts {userid : UInt64} (empty : q.fileheader.filelen ≤ 0)
    (inserts : Inserts md5 f.store q userid) : ∃ f', Does md5 (.upload q) f f' ∧
      f'.store.table = f.store.table ++ [newRow q.fileheader q.filename userid] := by
  obtain ⟨named,⟨beyond,session⟩,content⟩ := inserts
  obtain ⟨out,w',run,table⟩ : Can (Sys (calm []) 0) (process md5)
      (fun _ w' => w'.store.table = f.store.table ++ [newRow q.fileheader q.filename userid])
      ⟨q.conn [],f.store⟩ := by
    apply can_request rfl session named trivial
    rw [if_pos (show q.fileheader.upload = true from q.wanted)]
    obtain ⟨_,v,saved,rfl,kept⟩ := @can_save md5 [] 0 q.fileheader userid
      ⟨⟨q.body,q.ended,[] ++ userValidation true⟩,f.store⟩ empty content
    refine can_bind ⟨_,v,saved,can_bind (can_ask (r := true) (.inl ⟨rfl,rfl⟩) ?_)⟩
    have inserted : v.store.table ++ [newRow q.fileheader q.filename userid] =
        f.store.table ++ [newRow q.fileheader q.filename userid] := by rw [kept]
    refine can_bind (can_redis (fun _ _ => ?_) fun _ _ => inserted)
    dsimp only [After]
    apply can_redis
    · exact fun _ _ => inserted
    · exact fun _ _ => inserted
  have serves : Serves (calm []) q := ⟨fun _ _ _ _ => .inl,fun _ _ => not_false⟩
  exact ⟨_,.upload serves run,table⟩

theorem proper_of_marked (all : ∀ f', Does md5 act f f' → Marked f') : Proper md5 f.store act := by
  cases act with
  | dirAdd | elsewhere => trivial
  | upload q =>
    intro empty userid inserts
    obtain ⟨f',done,table⟩ := upload_inserts empty inserts
    have marked := all f' done
    -- The row is the last of the table, and so is its origin.
    rcases upload_cases done with ⟨same,-⟩ | ⟨_,-,-,origins⟩
    · rw [same] at table
      simp at table
    · rw [Marked,table,origins,← List.forall₂_reverse_iff,List.reverse_append,List.reverse_append] at marked
      cases marked with
      | cons last => exact absurd (last.2 nofun) (not_lt.mpr empty)

/-- As long as no upload that declares no content comes to its insert, a size of 0 marks the
directories, and only such an upload can end that. -/
theorem filesize_marks_directories (history : History md5 past f)
    (proper : ∀ h ∈ past, Proper md5 h.before.store h.act) :
    Marked f ∧ ∀ act, (∀ f', Does md5 act f f' → Marked f') ↔ Proper md5 f.store act := by
  have marked : Marked f := by
    induction history with
    | start => exact .nil
    | next earlier done ih =>
      have kept := ih fun h member => proper h (List.mem_append_left _ member)
      exact marked_step kept done (proper _ (List.mem_append_right _ (List.mem_singleton_self _)))
  exact ⟨marked,fun act => ⟨proper_of_marked,fun harmless f' done => marked_step marked done harmless⟩⟩

end sizes

theorem sample_marks_directories : ∃ f past, past.length = 2 ∧ History sampleMd5 past f ∧
    Marked f ∧ ∀ act, (∀ f', Does sampleMd5 act f f' → Marked f') ↔ Proper sampleMd5 f.store act := by
  have finishes : ((respond [] 0).run 100 (process sampleMd5)
      ⟨sampleFirst.conn [],sampleDirectory.store⟩).isSome := by decide +kernel
  obtain ⟨⟨out,conn,s⟩,ran⟩ := Option.isSome_iff_exists.mp finishes
  have serves : Serves (calm []) sampleFirst := ⟨fun _ _ _ _ => .inl,fun _ _ => not_false⟩
  have history := History.next (sampleDirectory_added sampleMd5)
    (.upload serves (Responder.run_sound (respond_within [] 0) _ _ _ _ _ ran))
  refine ⟨_,_,rfl,history,filesize_marks_directories history ?_⟩
  intro h member
  rcases List.mem_append.mp member with first | second
  · obtain rfl := List.mem_singleton.mp first
    trivial
  · obtain rfl := List.mem_singleton.mp second
    exact fun empty => absurd empty (by decide)

def sampleEmpty : Upload where
  toRequest := .encode (ascii "s1") (ascii "f") ⟨0,fun _ => 0,1,true,0⟩ [] false first_key_short name_short
  wanted := rfl

/-- User 1 uploads an empty file, and its row has the size of a directory. -/
theorem empty_file_unmarked : ¬ ∀ (md5 : Bytes → Digest) (past : List Doing) (f : Filled),
    History md5 past f → Marked f := by
  intro claim
  have key : uuidOf sampleEmpty.record [] = ascii "s1" := uuidOf_recordOf (by decide) (by decide) _ _
  have session : SessionOf sampleStart.redis.keys (uuidOf sampleEmpty.record []) 1 := by
    rw [key]
    exact sample_session
  have inserts : Inserts sampleMd5 sampleStart sampleEmpty 1 :=
    ⟨by decide,⟨[],session⟩,.inr ⟨by decide +kernel,by decide,[],by decide,by decide⟩⟩
  have all (f' : Filled) (done : Does sampleMd5 (.upload sampleEmpty) ⟨sampleStart,[]⟩ f') : Marked f' :=
    claim sampleMd5 _ f' (.next (.start ⟨sampleKeys,[]⟩ fun _ => none) done)
  exact proper_of_marked all (by decide) 1 inserts

end FilediskServer.TableRows
