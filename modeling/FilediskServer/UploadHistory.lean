import FilediskServer.Request

/-! Upload requests handled one after another, from an empty disk, an empty table and an
empty cache. MD5 is any function; Redis may forget and fail, sockets may fail once the file
header is read, and only the disk and the row insert are relied on. -/
namespace FilediskServer.UploadHistory
open Interaction Bytes CusInfo Redis Filetree Disk Calls SocketIO FileTask FileTaskRuns

structure Upload extends Request where
  wanted : (Fileheader.read header).upload = true

def uploadEnv (cwd : File) (u : Upload) : Env where
  redis := forgetful
  cwd := cwd
  kernel := .ample
  readFails c := c.input.length ≤ u.body.length
  writeFails := True
  diskFails := False
  insertFails := False
  selectFails := True
  memoryFails := True

/-- Task `task` has handled the request, whether it returned or threw. -/
def Handles (md5 : Bytes → Digest) (cwd : File) (task : Nat) (u : Upload) (s s' : Store) : Prop :=
  ∃ output out conn,
    Runs (Sys (uploadEnv cwd u) task) (process md5) ⟨u.conn output,s⟩ out ⟨conn,s'⟩

structure Handling where
  upload : Upload
  before : Store
  after : Store

def Handling.row (h : Handling) : Option Row := h.after.table[h.before.table.length]?

inductive History (md5 : Bytes → Digest) (cwd : File) : List Handling → Store → Prop
  | start (keys : Keyspace) : History md5 cwd [] ⟨⟨keys,[]⟩,[],fun _ => none⟩
  | next {past : List Handling} {s s' : Store} {u : Upload} (earlier : History md5 cwd past s)
      (handled : Handles md5 cwd past.length u s s') : History md5 cwd (past ++ [⟨u,s,s'⟩]) s'

/-- What one upload leaves in the store. -/
inductive Effect (md5 : Bytes → Digest) (task : Nat) (u : Upload) (s s' : Store) : Prop
  | nothing (table : s'.table = s.table) (files : s'.files = s.files)
      (added : s'.redis.added = s.redis.added)
  | shared (userid : UInt64)
      (known : 0 < pathCount s.table (hashPath u.fileheader.md5) ∨
        (decimal userid.toNat,hashPath u.fileheader.md5) ∈ s.redis.added)
      (table : s'.table = s.table ++ [newRow u.fileheader u.filename userid])
      (files : s'.files = s.files)
      (added : s'.redis.added = (decimal userid.toNat,hashPath u.fileheader.md5) :: s.redis.added)
  | stored (userid : UInt64) (b : Bytes) (unknown : pathCount s.table (hashPath u.fileheader.md5) = 0)
      (right : md5 b = u.fileheader.md5) (size : (b.length : Int) = u.fileheader.filelen)
      (table : s'.table = s.table ++ [newRow u.fileheader u.filename userid])
      (files : s'.files = (s.files.create (hashFile (md5 b))).append (hashFile (md5 b)) ⟨task,b⟩)
      (added : s'.redis.added = (decimal userid.toNat,hashPath u.fileheader.md5) :: s.redis.added)

theorem toInt_le {size : Int} (positive : 0 ≤ size) : (toInt size).toNat ≤ size.toNat := by
  have below := @Int.bmod_le
  unfold toInt
  rw [Int.bmod]
  split <;> omega

section effect
variable {env : Env} {md5 : Bytes → Digest} {fh : Fileheader}

theorem checked_size {c c' : Conn} {fresh b : Bytes} (checked : Checked env md5 fh c fresh b c')
    (positive : 0 ≤ fh.filelen) (size : fresh.length = fh.filelen.toNat) :
    b.length = fh.filelen.toNat := by
  have kept {b got : Bytes} {c c' : Conn} (held : b.length = fh.filelen.toNat)
      (body : Received env c (toInt fh.filelen).toNat got c') :
      (overlay b 0 got).length = fh.filelen.toNat := by
    have bound := body.bound
    have fits := toInt_le positive
    simp only [overlay,List.take_zero,List.nil_append,List.length_append,List.length_drop]
    omega
  have rounds_kept {p : Conn × Bytes}
      (rounds : Relation.ReflTransGen (Resent env md5 fh) (c,fresh) p) :
      p.2.length = fh.filelen.toNat := by
    induction rounds with
    | refl => exact size
    | tail _ round ih => cases round with | mk body => exact kept ih body
  cases checked with
  | mk rounds body right => exact kept (rounds_kept rounds) body

theorem checked_right {c c' : Conn} {fresh b : Bytes} (checked : Checked env md5 fh c fresh b c') :
    md5 b = fh.md5 := by
  cases checked with | mk _ _ right => exact right

theorem exists_cases {s : Store} {path : Bytes} {userid : UInt64} {out : Except Halt Bool}
    {r : Redis.State} (redis : env.redis = forgetful) (check : Exists env s path userid out r) :
    r.added = s.redis.added ∧
      (out = .ok true → 0 < pathCount s.table path ∨ (decimal userid.toNat,path) ∈ s.redis.added) ∧
      (out = .ok false → pathCount s.table path = 0) := by
  cases check with
  | failed asked | tooMany asked | noResult asked =>
    rw [redis] at asked
    exact ⟨asked.1,nofun,nofun⟩
  | cached asked =>
    rw [redis] at asked
    exact ⟨asked.1,fun _ => .inr asked.2,nofun⟩
  | counted asked small =>
    rw [redis] at asked
    refine ⟨asked.1,fun positive => .inl ?_,fun zero => ?_⟩
    · simpa using positive
    · simpa using zero

theorem saved_ok {me : Nat} {userid : UInt64} {w w' : World} {path : Bytes}
    (redis : env.redis = forgetful) (disk : env.DiskWorks)
    (saved : Saved env me md5 fh userid w (.ok path) w') :
    path = hashPath fh.md5 ∧ w'.store.table = w.store.table ∧
      w'.store.redis.added = w.store.redis.added ∧
      (((0 < pathCount w.store.table path ∨ (decimal userid.toNat,path) ∈ w.store.redis.added) ∧
          w'.store.files = w.store.files) ∨
        ∃ b, pathCount w.store.table path = 0 ∧ md5 b = fh.md5 ∧ (b.length : Int) = fh.filelen ∧
          w'.store.files = (w.store.files.create (hashFile (md5 b))).append (hashFile (md5 b)) ⟨me,b⟩) := by
  cases saved with
  | known check =>
    have cases := exists_cases redis check
    exact ⟨rfl,rfl,cases.1,.inl ⟨cases.2.1 rfl,rfl⟩⟩
  | @stored r sent fresh b c files check answer positive size checked kept =>
    have cases := exists_cases redis check
    have held := checked_size checked positive size
    refine ⟨rfl,rfl,cases.1,.inr ⟨b,cases.2.2 rfl,checked_right checked,by omega,?_⟩⟩
    cases kept with
    | full => rw [resolve_hashPath,checked_right checked]
    | notOpened fails => exact absurd (disk.opens _) (fails.resolve_left disk.up)
    | notWritten fails | part fails => exact absurd (disk.writes _) (fails.resolve_left disk.up)

theorem saved_error {me : Nat} {userid : UInt64} {w w' : World} {e : Halt}
    (redis : env.redis = forgetful) (saved : Saved env me md5 fh userid w (.error e) w') :
    w'.store.table = w.store.table ∧ w'.store.files = w.store.files ∧
      w'.store.redis.added = w.store.redis.added := by
  cases saved with
  | unanswered check | noMemory check => exact ⟨rfl,rfl,(exists_cases redis check).1⟩

end effect

theorem uploaded_effect {cwd : File} {md5 : Bytes → Digest} {task : Nat} {u : Upload}
    {userid : UInt64} {w w' : World} {s : Store} {out : Except Halt Unit}
    (table : w.store.table = s.table) (files : w.store.files = s.files)
    (members : w.store.redis.added = s.redis.added)
    (done : Uploaded (uploadEnv cwd u) task md5 u.fileheader u.filename userid w out w') :
    Effect md5 task u s w'.store := by
  have stored {w₁ : World} {rows : List Row} {r : Redis.State}
      (saved : Saved (uploadEnv cwd u) task md5 u.fileheader userid w
        (.ok (hashPath u.fileheader.md5)) w₁)
      (inserted : Inserted (uploadEnv cwd u) w₁.store.table
        (newRow u.fileheader u.filename userid) rows)
      (added : r.added = (decimal userid.toNat,hashPath u.fileheader.md5) :: w₁.store.redis.added) :
      Effect md5 task u s {w₁.store with table := rows, redis := r} := by
    obtain ⟨-,sameRows,sameMembers,either⟩ := saved_ok rfl ⟨not_false,fun _ => trivial,fun _ => trivial⟩ saved
    rw [table] at sameRows either
    rw [members] at sameMembers either
    rw [files] at either
    rw [sameMembers] at added
    obtain rfl : rows = s.table ++ [newRow u.fileheader u.filename userid] := by
      cases inserted with
      | done => rw [sameRows]
      | lost fails => exact fails.elim
    rcases either with ⟨known,files⟩ | ⟨b,unknown,right,size,files⟩
    · exact .shared userid known rfl files added
    · exact .stored userid b unknown right size rfl files added
  cases done with
  | notSaved saved =>
    obtain ⟨sameRows,sameFiles,sameMembers⟩ := saved_error rfl saved
    exact .nothing (sameRows.trans table) (sameFiles.trans files) (sameMembers.trans members)
  | notAdded saved inserted added => exact stored saved inserted added.1
  | added saved inserted added set => exact stored saved inserted (set.1.trans added.1)

theorem handles_effect {md5 : Bytes → Digest} {cwd : File} {task : Nat} {u : Upload} {s s' : Store}
    (handled : Handles md5 cwd task u s s') : Effect md5 task u s s' := by
  obtain ⟨output,out,conn,run⟩ := handled
  cases process_cases run with
  | refused refused =>
    cases refused with
    | failed _ asked | unknown _ asked | notNumber _ asked => exact .nothing rfl rfl asked.1
    | badLength _ session | noRoom _ session =>
      obtain ⟨_,asked,_⟩ := session.live
      exact .nothing rfl rfl asked.1
  | download accepted wanted =>
    obtain ⟨_,rfl,_⟩ := accepted_request accepted (by simp [uploadEnv])
    exact absurd (u.wanted.symm.trans wanted) (by simp)
  | upload accepted _ done =>
    obtain ⟨rfl,rfl,_,_,_,session,_,rfl⟩ := accepted_request accepted (by simp [uploadEnv])
    obtain ⟨_,asked,_⟩ := session.live
    exact @uploaded_effect cwd md5 task u _ _ _ s _ rfl rfl asked.1 done

/-- Files and rows name each other, and the cache names nothing that no row does. -/
structure Intact (md5 : Bytes → Digest) (handled : Nat) (s : Store) : Prop where
  single : ∀ file blocks, s.files file = some blocks →
    ∃ task b, task < handled ∧ blocks = [⟨task,b⟩] ∧ file = hashFile (md5 b)
  named : ∀ row ∈ s.table, ∃ d, row.hashfilepath = hashPath d ∧ s.files (hashFile d) ≠ none
  listed : ∀ d, s.files (hashFile d) ≠ none → ∃ row ∈ s.table, row.hashfilepath = hashPath d
  cached : ∀ entry ∈ s.redis.added, ∃ row ∈ s.table, row.hashfilepath = entry.2

theorem intact_start (md5 : Bytes → Digest) (keys : Keyspace) :
    Intact md5 0 ⟨⟨keys,[]⟩,[],fun _ => none⟩ :=
  ⟨nofun,nofun,fun _ present => absurd rfl present,nofun⟩

private theorem named_snoc {s s' : Store} {row : Row} {key : Bytes}
    (table : s'.table = s.table ++ [row])
    (added : s'.redis.added = (key,row.hashfilepath) :: s.redis.added)
    (cached : ∀ entry ∈ s.redis.added, ∃ row ∈ s.table, row.hashfilepath = entry.2) :
    ∀ entry ∈ s'.redis.added, ∃ row ∈ s'.table, row.hashfilepath = entry.2 := by
  intro entry member
  rw [added] at member
  rw [table]
  rcases List.mem_cons.mp member with rfl | old
  · exact ⟨row,by simp,rfl⟩
  · obtain ⟨found,inside,same⟩ := cached entry old
    exact ⟨found,by simp [inside],same⟩

theorem Intact.present {md5 : Bytes → Digest} {handled : Nat} {s : Store} (intact : Intact md5 handled s)
    {d : Digest} {key : Bytes}
    (known : 0 < pathCount s.table (hashPath d) ∨ (key,hashPath d) ∈ s.redis.added) :
    s.files (hashFile d) ≠ none := by
  obtain ⟨row,member,path⟩ : ∃ row ∈ s.table, row.hashfilepath = hashPath d := by
    rcases known with counted | member
    · exact pathCount_pos.mp counted
    · exact intact.cached _ member
  obtain ⟨d',same,present⟩ := intact.named row member
  rwa [hashPath_injective (path.symm.trans same)]

theorem Intact.absent {md5 : Bytes → Digest} {handled : Nat} {s : Store} (intact : Intact md5 handled s)
    {d : Digest} (unknown : pathCount s.table (hashPath d) = 0) : s.files (hashFile d) = none := by
  by_contra present
  have counted := pathCount_pos.mpr (intact.listed d present)
  omega

theorem intact_step {md5 : Bytes → Digest} {handled : Nat} {u : Upload} {s s' : Store}
    (intact : Intact md5 handled s) (effect : Effect md5 handled u s s') :
    Intact md5 (handled + 1) s' := by
  have older (file : File) (blocks : Blocks) (held : s.files file = some blocks) :
      ∃ task b, task < handled + 1 ∧ blocks = [⟨task,b⟩] ∧ file = hashFile (md5 b) := by
    obtain ⟨task,b,less,same⟩ := intact.single file blocks held
    exact ⟨task,b,by omega,same⟩
  cases effect with
  | nothing table files added =>
    refine ⟨?_,?_,?_,?_⟩
    · rwa [files]
    · rw [table,files]
      exact intact.named
    · rw [table,files]
      exact intact.listed
    · rw [table,added]
      exact intact.cached
  | shared userid known table files added =>
    refine ⟨by rwa [files],?_,?_,named_snoc table added intact.cached⟩
    · rw [table,files]
      intro row member
      rcases List.mem_append.mp member with old | new
      · exact intact.named row old
      · obtain rfl := List.mem_singleton.mp new
        exact ⟨u.fileheader.md5,rfl,intact.present known⟩
    · rw [table,files]
      intro d present
      obtain ⟨row,member,same⟩ := intact.listed d present
      exact ⟨row,by simp [member],same⟩
  | stored userid b unknown right size table files added =>
    -- No row names the file, so it is not there and the block is its only one.
    rw [right,Files.append_create _ (intact.absent unknown)] at files
    refine ⟨?_,?_,?_,named_snoc table added intact.cached⟩
    · intro file blocks held
      rw [files,Function.update_apply] at held
      split_ifs at held with same
      · exact ⟨handled,b,by omega,(Option.some.inj held).symm,by rw [same,right]⟩
      · exact older file blocks held
    · rw [table]
      intro row member
      rcases List.mem_append.mp member with old | new
      · obtain ⟨d,same,present⟩ := intact.named row old
        refine ⟨d,same,?_⟩
        rw [files,Function.update_apply]
        split_ifs
        · exact Option.some_ne_none _
        · exact present
      · obtain rfl := List.mem_singleton.mp new
        exact ⟨u.fileheader.md5,rfl,by simp [files]⟩
    · rw [table]
      intro d present
      rw [files,Function.update_apply] at present
      split_ifs at present with file
      · obtain rfl := hashFile_injective file
        exact ⟨newRow u.fileheader u.filename userid,by simp,rfl⟩
      · obtain ⟨row,member,same⟩ := intact.listed d present
        exact ⟨row,by simp [member],same⟩

theorem history_intact {md5 : Bytes → Digest} {cwd : File} {past : List Handling} {s : Store}
    (history : History md5 cwd past s) : Intact md5 past.length s := by
  induction history with
  | start keys => exact intact_start md5 keys
  | next earlier handled ih =>
    rw [List.length_append]
    exact intact_step ih (handles_effect handled)

theorem row_of_effect {md5 : Bytes → Digest} {task : Nat} {u : Upload} {s s' : Store}
    (effect : Effect md5 task u s s') :
    (s'.table = s.table ∧ (Handling.mk u s s').row = none) ∨ ∃ userid,
      s'.table = s.table ++ [newRow u.fileheader u.filename userid] ∧
      (Handling.mk u s s').row = some (newRow u.fileheader u.filename userid) := by
  have added {userid : UInt64} (table : s'.table = s.table ++ [newRow u.fileheader u.filename userid]) :
      (Handling.mk u s s').row = some (newRow u.fileheader u.filename userid) := by
    simp [Handling.row,table]
  cases effect with
  | nothing table => exact .inl ⟨table,by simp [Handling.row,table]⟩
  | shared userid _ table | stored userid _ _ _ _ table => exact .inr ⟨userid,table,added table⟩

theorem history_rows {md5 : Bytes → Digest} {cwd : File} {past : List Handling} {s : Store}
    (history : History md5 cwd past s) : s.table = past.filterMap Handling.row ∧
      ∀ h ∈ past, ∀ row ∈ h.row, ∃ userid, row = newRow h.upload.fileheader h.upload.filename userid := by
  induction history with
  | start keys => exact ⟨rfl,nofun⟩
  | next earlier handled ih =>
    obtain ⟨table,rows⟩ := ih
    simp only [List.filterMap_append,List.forall_mem_append,List.forall_mem_singleton]
    rcases row_of_effect (handles_effect handled) with ⟨same,none⟩ | ⟨userid,grown,some⟩
    · simp only [List.filterMap_cons,none,List.filterMap_nil,List.append_nil]
      exact ⟨same.trans table,rows,nofun⟩
    · simp only [List.filterMap_cons,some,List.filterMap_nil]
      refine ⟨by rw [grown,table],rows,?_⟩
      rintro _ ⟨⟩
      exact ⟨userid,rfl⟩

section sample

def sampleKeys : Keyspace := fun key =>
  if key = ascii "s1" then
    some ⟨.hash [(ascii "username",ascii "ann"),(ascii "userid",ascii "1")],false⟩
  else if key = ascii "s2" then
    some ⟨.hash [(ascii "username",ascii "bob"),(ascii "userid",ascii "2")],false⟩
  else none

def sampleDigest : Digest := fun i =>
  [0x0c,0xc1,0x75,0xb9,0xc0,0xf1,0xb6,0xa8,0x31,0xc3,0x99,0xe2,0x69,0x77,0x26,0x61].getD i 0

def sampleMd5 (b : Bytes) : Digest := if b = ascii "a" then sampleDigest else fun _ => 0

theorem name_short : (ascii "f").length < 2 ^ 31 := by decide
theorem first_key_short : (ascii "s1").length ≤ 36 := by decide
theorem second_key_short : (ascii "s2").length ≤ 36 := by decide

def sampleUpload (uuid : Bytes) (short : uuid.length ≤ 36) (filelen : Int) : Upload where
  toRequest := .encode uuid (ascii "f") ⟨0,sampleDigest,1,true,filelen⟩ (ascii "a") false short name_short
  wanted := rfl

def sampleStart : Store := ⟨⟨sampleKeys,[]⟩,[],fun _ => none⟩

theorem sampleStart_sound : sampleStart.redis.Sound := by
  intro key m inside
  simp only [sampleStart,members,sampleKeys] at inside
  split_ifs at inside <;> simp at inside

def handle (md5 : Bytes → Digest) (cwd : File) (task : Nat) (u : Upload) (s : Store) : Option Store :=
  ((respond cwd task).run 100 (process md5) ⟨u.conn [],s⟩).map (·.2.store)

theorem handles_of_handle {md5 : Bytes → Digest} {cwd : File} {task : Nat} {u : Upload}
    {s s' : Store} (sound : s.redis.Sound) (ran : handle md5 cwd task u s = some s') :
    Handles md5 cwd task u s s' ∧ s'.redis.Sound := by
  obtain ⟨⟨out,conn,_⟩,answered,rfl⟩ := Option.map_eq_some_iff.mp ran
  have allows (s : Redis.State) (c : Command) (r : Except RedisError c.Reply) (s' : Redis.State)
      (sound : s.Sound) (executed : typed s c r s') : (uploadEnv cwd u).redis s c r s' :=
    typed_forgetful sound executed
  have within := runs_of_respond rfl allows sound answered
  exact ⟨⟨[],out,conn,within.1⟩,within.2⟩

def sampleFirst : Upload := sampleUpload (ascii "s1") first_key_short 1
def sampleSecond : Upload := sampleUpload (ascii "s2") second_key_short 5

def sampleStored : Store := (handle sampleMd5 [] 0 sampleFirst sampleStart).get (by decide +kernel)
def sampleShared : Store := (handle sampleMd5 [] 1 sampleSecond sampleStored).get (by decide +kernel)

theorem sampleStored_handled : Handles sampleMd5 [] 0 sampleFirst sampleStart sampleStored ∧
    sampleStored.redis.Sound :=
  handles_of_handle sampleStart_sound (Option.some_get _).symm

theorem sampleHistory : History sampleMd5 []
    [⟨sampleFirst,sampleStart,sampleStored⟩,⟨sampleSecond,sampleStored,sampleShared⟩] sampleShared :=
  .next (.next (.start sampleKeys) sampleStored_handled.1)
    (handles_of_handle sampleStored_handled.2 (Option.some_get _).symm).1

end sample

/-- In every state reached each file was written by one request and has the content its
name spells, and each row names a file that is there. -/
theorem store_integrity {md5 : Bytes → Digest} {cwd : File} {past : List Handling} {s : Store}
    (history : History md5 cwd past s) :
    (∀ file blocks, s.files file = some blocks →
      ∃ task b, task < past.length ∧ blocks = [⟨task,b⟩] ∧ file = hashFile (md5 b)) ∧
      ∀ row ∈ s.table, ∃ blocks, s.files (resolve cwd row.hashfilepath) = some blocks := by
  have intact := history_intact history
  refine ⟨intact.single,fun row member => ?_⟩
  obtain ⟨d,same,present⟩ := intact.named row member
  rw [same,resolve_hashPath]
  exact Option.ne_none_iff_exists'.mp present

theorem sample_integrity : sampleShared.table.length = 2 ∧
    (∀ file blocks, sampleShared.files file = some blocks →
      ∃ task b, task < 2 ∧ blocks = [⟨task,b⟩] ∧ file = hashFile (sampleMd5 b)) ∧
    ∀ row ∈ sampleShared.table, ∃ blocks, sampleShared.files (resolve [] row.hashfilepath) = some blocks :=
  ⟨by decide +kernel,store_integrity sampleHistory⟩

/-- Every row's size is the length of the file its path names. -/
def SizesAgree (cwd : File) (s : Store) : Prop :=
  ∀ row ∈ s.table, row.filesize = (s.files.content (resolve cwd row.hashfilepath)).length

/-- A request for content that is stored already declares the length of the stored file. -/
def DeclaresLength (u : Upload) (s : Store) : Prop :=
  s.files (hashFile u.fileheader.md5) ≠ none →
    u.fileheader.filelen = (s.files.content (hashFile u.fileheader.md5)).length

theorem sizes_step {md5 : Bytes → Digest} (cwd : File) {handled : Nat} {u : Upload} {s s' : Store}
    (intact : Intact md5 handled s) (effect : Effect md5 handled u s s') (agree : SizesAgree cwd s) :
    SizesAgree cwd s' ↔ (s'.table ≠ s.table → DeclaresLength u s) := by
  cases effect with
  | nothing table files added =>
    have kept : SizesAgree cwd s' := by rwa [SizesAgree,table,files]
    exact iff_of_true kept fun changed => absurd table changed
  | shared userid known table files added =>
    have path : resolve cwd (newRow u.fileheader u.filename userid).hashfilepath =
        hashFile u.fileheader.md5 := resolve_hashPath cwd _
    constructor
    · intro after _ _
      have new := after (newRow u.fileheader u.filename userid) (by simp [table])
      rw [path,files] at new
      exact new
    · intro declares row member
      rw [table] at member
      rw [files]
      rcases List.mem_append.mp member with old | new
      · exact agree row old
      · obtain rfl := List.mem_singleton.mp new
        rw [path]
        exact declares (by simp [table]) (intact.present known)
  | stored userid b unknown right size table files added =>
    have absent := intact.absent unknown
    rw [right,Files.append_create _ absent] at files
    refine iff_of_true ?_ fun _ present => absurd absent present
    intro row member
    rw [table] at member
    rcases List.mem_append.mp member with old | new
    · obtain ⟨d,same,present⟩ := intact.named row old
      have other : resolve cwd row.hashfilepath ≠ hashFile u.fileheader.md5 := by
        rw [same,resolve_hashPath]
        intro equal
        exact present (equal ▸ absent)
      rw [agree row old,Files.content,Files.content,files,Function.update_of_ne other]
    · obtain rfl := List.mem_singleton.mp new
      have path : resolve cwd (newRow u.fileheader u.filename userid).hashfilepath =
          hashFile u.fileheader.md5 := resolve_hashPath cwd _
      rw [path,Files.content,files,Function.update_self]
      simpa [Blocks.content,newRow] using size.symm

theorem agree_last {md5 : Bytes → Digest} {cwd : File} {past : List Handling} {s : Store}
    (history : History md5 cwd past s) (agree : ∀ h ∈ past, SizesAgree cwd h.after) :
    SizesAgree cwd s := by
  cases history with
  | start keys => exact nofun
  | next earlier handled => exact agree _ (List.mem_append_right _ (List.mem_singleton_self _))

/-- Sizes agree in every state reached exactly when each request that added a row for
content already stored declared the length of the stored file. -/
theorem sizes_agree_iff {md5 : Bytes → Digest} {cwd : File} {past : List Handling} {s : Store}
    (history : History md5 cwd past s) :
    (∀ h ∈ past, SizesAgree cwd h.after) ↔
      ∀ h ∈ past, h.after.table ≠ h.before.table → DeclaresLength h.upload h.before := by
  induction history with
  | start keys => simp
  | next earlier handled ih =>
    simp only [List.forall_mem_append,List.forall_mem_singleton]
    have step := sizes_step cwd (history_intact earlier) (handles_effect handled)
    constructor
    · rintro ⟨agree,last⟩
      exact ⟨ih.mp agree,(step (agree_last earlier agree)).mp last⟩
    · rintro ⟨declared,last⟩
      exact ⟨ih.mpr declared,(step (agree_last earlier (ih.mpr declared))).mpr last⟩

theorem sample_sizes : (∀ h ∈ [Handling.mk sampleFirst sampleStart sampleStored], SizesAgree [] h.after) ↔
    ∀ h ∈ [Handling.mk sampleFirst sampleStart sampleStored],
      h.after.table ≠ h.before.table → DeclaresLength h.upload h.before :=
  sizes_agree_iff (.next (.start sampleKeys) sampleStored_handled.1)

/-- The second user declares five bytes for the one byte that the first has stored. -/
theorem sizes_disagree : ¬ ∀ (md5 : Bytes → Digest) (cwd : File) (past : List Handling) (s : Store),
    History md5 cwd past s → ∀ h ∈ past, SizesAgree cwd h.after := by
  intro claim
  have agree := claim sampleMd5 [] _ _ sampleHistory ⟨sampleSecond,sampleStored,sampleShared⟩ (by simp)
  have row : newRow sampleSecond.fileheader (ascii "f") 2 ∈ sampleShared.table := by decide +kernel
  have content : (sampleShared.files.content (hashFile sampleDigest)).length = 1 := by decide +kernel
  have digest : sampleSecond.fileheader.md5 = sampleDigest := by decide
  have size := agree _ row
  unfold newRow at size
  rw [digest,resolve_hashPath,content] at size
  exact absurd size (by decide)

end FilediskServer.UploadHistory
