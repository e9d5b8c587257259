import FilediskServer.FileTask

/-! What a finished call of `process` has done, case by case, for any environment: which
records it took off the connection, which commands it gave, and what became of the store. -/
namespace FilediskServer.FileTaskRuns
open Interaction Bytes CusInfo Redis Filetree Disk Calls SocketIO FileTask

def filled (n : Nat) (got : Bytes) : Bytes := overlay (zeros n) 0 got

def Conn.wrote (c : Conn) (b : Bytes) : Conn := {c with output := c.output ++ b}

/-- The session of the key was read and the `userid` in it is a number. -/
structure Session (env : Env) (s : Redis.State) (uuid : Bytes) (userid : UInt64) (s' : Redis.State) :
    Prop where
  live : ∃ fields, env.redis s (.hgetall uuid) (.ok fields) s' ∧ fields ≠ [] ∧
    stoull (lookup fields (ascii "userid")) = .ok userid

/-- The request was read up to its file header and belongs to a user. -/
inductive Accepted (env : Env) (w : World) : UInt64 → Bytes → Fileheader → World → Prop
  | mk {got beyond sent name header : Bytes} {c₁ c₂ c₃ : Conn} {userid : UInt64} {s : Redis.State}
      (record : Received env w.conn sizeofDatauuid got c₁)
      (session : Session env w.store.redis (uuidOf (filled sizeofDatauuid got) beyond) userid s)
      (answer : Sent env (userValidation true) 1 sent)
      (low : 0 ≤ namelenOf (filled sizeofDatauuid got))
      (high : namelenOf (filled sizeofDatauuid got) + 1 < 2 ^ 31)
      (room : env.kernel.arrays (namelenOf (filled sizeofDatauuid got) + 1).toNat)
      (named : Received env (Conn.wrote c₁ sent)
        (namelenOf (filled sizeofDatauuid got)).toNat name c₂)
      (headed : Received env c₂ sizeofFileheader header c₃) :
      Accepted env w userid
        (cstr (filled (namelenOf (filled sizeofDatauuid got) + 1).toNat name))
        (Fileheader.read (filled sizeofFileheader header))
        ⟨c₃,{w.store with redis := s}⟩

inductive Refused (env : Env) (w : World) : Except Halt Unit → World → Prop
  | failed {got beyond : Bytes} {c : Conn} {e : RedisError} {s : Redis.State}
      (record : Received env w.conn sizeofDatauuid got c)
      (asked : env.redis w.store.redis
        (.hgetall (uuidOf (filled sizeofDatauuid got) beyond)) (.error e) s) :
      Refused env w (.error (.redis e)) ⟨c,{w.store with redis := s}⟩
  | unknown {got beyond sent : Bytes} {c : Conn} {s : Redis.State}
      (record : Received env w.conn sizeofDatauuid got c)
      (asked : env.redis w.store.redis
        (.hgetall (uuidOf (filled sizeofDatauuid got) beyond)) (.ok []) s)
      (answer : Sent env (userValidation false) 1 sent) :
      Refused env w (.ok ()) ⟨Conn.wrote c sent,{w.store with redis := s}⟩
  | notNumber {got beyond : Bytes} {fields : List (Bytes × Bytes)} {c : Conn} {e : NumeralError}
      {s : Redis.State} (record : Received env w.conn sizeofDatauuid got c)
      (asked : env.redis w.store.redis
        (.hgetall (uuidOf (filled sizeofDatauuid got) beyond)) (.ok fields) s)
      (bad : stoull (lookup fields (ascii "userid")) = .error e) :
      Refused env w (.error (.numeral e)) ⟨c,{w.store with redis := s}⟩
  | badLength {got beyond sent : Bytes} {c : Conn} {userid : UInt64} {s : Redis.State}
      (record : Received env w.conn sizeofDatauuid got c)
      (session : Session env w.store.redis (uuidOf (filled sizeofDatauuid got) beyond) userid s)
      (answer : Sent env (userValidation true) 1 sent)
      (bad : ¬ (0 ≤ namelenOf (filled sizeofDatauuid got) ∧
        namelenOf (filled sizeofDatauuid got) + 1 < 2 ^ 31)) :
      Refused env w (.error .undefined) ⟨Conn.wrote c sent,{w.store with redis := s}⟩
  | noRoom {got beyond sent : Bytes} {c : Conn} {userid : UInt64} {s : Redis.State}
      (record : Received env w.conn sizeofDatauuid got c)
      (session : Session env w.store.redis (uuidOf (filled sizeofDatauuid got) beyond) userid s)
      (answer : Sent env (userValidation true) 1 sent)
      (low : 0 ≤ namelenOf (filled sizeofDatauuid got))
      (high : namelenOf (filled sizeofDatauuid got) + 1 < 2 ^ 31)
      (full : env.memoryFails ∨ ¬ env.kernel.arrays (namelenOf (filled sizeofDatauuid got) + 1).toNat) :
      Refused env w (.error .stackOverflow) ⟨Conn.wrote c sent,{w.store with redis := s}⟩

/-- What `isfileexits` answers, and the Redis state after it. -/
inductive Exists (env : Env) (s : Store) (path : Bytes) (userid : UInt64) :
    Except Halt Bool → Redis.State → Prop
  | failed {e : RedisError} {r : Redis.State}
      (asked : env.redis s.redis (.sismember (decimal userid.toNat) path) (.error e) r) :
      Exists env s path userid (.error (.redis e)) r
  | cached {r : Redis.State}
      (asked : env.redis s.redis (.sismember (decimal userid.toNat) path) (.ok true) r) :
      Exists env s path userid (.ok true) r
  | counted {r : Redis.State}
      (asked : env.redis s.redis (.sismember (decimal userid.toNat) path) (.ok false) r)
      (small : pathCount s.table path < 2 ^ 31) :
      Exists env s path userid (.ok (decide (pathCount s.table path > 0))) r
  | tooMany {r : Redis.State}
      (asked : env.redis s.redis (.sismember (decimal userid.toNat) path) (.ok false) r)
      (large : 2 ^ 31 ≤ pathCount s.table path) :
      Exists env s path userid (.error (.numeral .outOfRange)) r
  | noResult {r : Redis.State}
      (asked : env.redis s.redis (.sismember (decimal userid.toNat) path) (.ok false) r)
      (fails : env.selectFails) : Exists env s path userid (.error .null) r

/-- One round of the receive loop that did not bring the announced content. -/
inductive Resent (env : Env) (md5 : Bytes → Digest) (fh : Fileheader) :
    Conn × Bytes → Conn × Bytes → Prop
  | mk {c c' : Conn} {b got sent : Bytes}
      (body : Received env c (toInt fh.filelen).toNat got c')
      (wrong : md5 (overlay b 0 got) ≠ fh.md5) (answer : Sent env (fileerror true) 1 sent) :
      Resent env md5 fh (c,b) (Conn.wrote c' sent,overlay b 0 got)

inductive Checked (env : Env) (md5 : Bytes → Digest) (fh : Fileheader) (c : Conn) (fresh : Bytes) :
    Bytes → Conn → Prop
  | mk {c₁ c₂ : Conn} {b got : Bytes}
      (rounds : Relation.ReflTransGen (Resent env md5 fh) (c,fresh) (c₁,b))
      (body : Received env c₁ (toInt fh.filelen).toNat got c₂)
      (right : md5 (overlay b 0 got) = fh.md5) : Checked env md5 fh c fresh (overlay b 0 got) c₂

inductive Kept (env : Env) (me : Nat) (files : Files) (path b : Bytes) : Files → Prop
  | full (whole : env.kernel.writes b.length) : Kept env me files path b
      ((files.create (resolve env.cwd path)).append (resolve env.cwd path) ⟨me,b⟩)
  | notOpened (fails : env.diskFails ∨ ¬ env.kernel.opens path) : Kept env me files path b files
  | notWritten (fails : env.diskFails ∨ ¬ env.kernel.writes b.length) :
      Kept env me files path b (files.create (resolve env.cwd path))
  | part (fails : env.diskFails ∨ ¬ env.kernel.writes b.length) (n : Nat) : Kept env me files path b
      ((files.create (resolve env.cwd path)).append (resolve env.cwd path) ⟨me,b.take n⟩)

inductive Saved (env : Env) (me : Nat) (md5 : Bytes → Digest) (fh : Fileheader) (userid : UInt64)
    (w : World) : Except Halt Bytes → World → Prop
  | unanswered {e : Halt} {r : Redis.State}
      (check : Exists env w.store (hashPath fh.md5) userid (.error e) r) :
      Saved env me md5 fh userid w (.error e) ⟨w.conn,{w.store with redis := r}⟩
  | known {r : Redis.State} {sent : Bytes}
      (check : Exists env w.store (hashPath fh.md5) userid (.ok true) r)
      (answer : Sent env (fileexists true) 1 sent) :
      Saved env me md5 fh userid w (.ok (hashPath fh.md5)) ⟨Conn.wrote w.conn sent,{w.store with redis := r}⟩
  | noMemory {r : Redis.State} {sent : Bytes}
      (check : Exists env w.store (hashPath fh.md5) userid (.ok false) r)
      (answer : Sent env (fileexists false) 1 sent)
      (why : fh.filelen < 0 ∨ env.memoryFails ∨ ¬ env.kernel.allocates fh.filelen.toNat) :
      Saved env me md5 fh userid w (.error .badAlloc) ⟨Conn.wrote w.conn sent,{w.store with redis := r}⟩
  | stored {r : Redis.State} {sent fresh b : Bytes} {c : Conn} {files : Files}
      (check : Exists env w.store (hashPath fh.md5) userid (.ok false) r)
      (answer : Sent env (fileexists false) 1 sent) (positive : 0 ≤ fh.filelen)
      (size : fresh.length = fh.filelen.toNat)
      (checked : Checked env md5 fh (Conn.wrote w.conn sent) fresh b c)
      (kept : Kept env me w.store.files (hashPath fh.md5) b files) :
      Saved env me md5 fh userid w (.ok (hashPath fh.md5))
        ⟨c,{w.store with redis := r, files := files}⟩

def newRow (fh : Fileheader) (filename : Bytes) (userid : UInt64) : Row :=
  ⟨userid,filename,some fh.index,hashPath fh.md5,fh.dirid,fh.filelen⟩

inductive Inserted (env : Env) (table : List Row) (row : Row) : List Row → Prop
  | done : Inserted env table row (table ++ [row])
  | lost (fails : env.insertFails) : Inserted env table row table

inductive Uploaded (env : Env) (me : Nat) (md5 : Bytes → Digest) (fh : Fileheader) (filename : Bytes)
    (userid : UInt64) (w : World) : Except Halt Unit → World → Prop
  | notSaved {e : Halt} {w' : World} (saved : Saved env me md5 fh userid w (.error e) w') :
      Uploaded env me md5 fh filename userid w (.error e) w'
  | notAdded {w₁ : World} {table : List Row} {e : RedisError} {r : Redis.State}
      (saved : Saved env me md5 fh userid w (.ok (hashPath fh.md5)) w₁)
      (inserted : Inserted env w₁.store.table (newRow fh filename userid) table)
      (added : env.redis w₁.store.redis (.sadd (decimal userid.toNat) (hashPath fh.md5)) (.error e) r) :
      Uploaded env me md5 fh filename userid w (.error (.redis e))
        ⟨w₁.conn,{w₁.store with table := table, redis := r}⟩
  | added {w₁ : World} {table : List Row} {out : Except RedisError Unit} {r r' : Redis.State}
      (saved : Saved env me md5 fh userid w (.ok (hashPath fh.md5)) w₁)
      (inserted : Inserted env w₁.store.table (newRow fh filename userid) table)
      (added : env.redis w₁.store.redis (.sadd (decimal userid.toNat) (hashPath fh.md5)) (.ok ()) r)
      (set : env.redis r (.setex (decimal userid.toNat) (4 * 60 * 60) (hashPath fh.md5)) out r') :
      Uploaded env me md5 fh filename userid w (out.mapError .redis)
        ⟨w₁.conn,{w₁.store with table := table, redis := r'}⟩

inductive SentFile (env : Env) (fh : Fileheader) (filename : Bytes) :
    Int × Bytes × UInt64 → World → World → Prop
  | mk {w : World} {index : Int} {filepath raw head body : Bytes} {filesize : UInt64}
      {data : Option Mapping} (opened : env.kernel.opens filename)
      (mapped : (data = some ⟨resolve env.cwd filename,filesize.toNat⟩ ∧ 0 < filesize.toNat ∧
          filesize.toNat < addressSpace) ∨
        (data = none ∧ (env.diskFails ∨ filesize.toNat = 0 ∨ addressSpace ≤ filesize.toNat)))
      (size : raw.length = sizeofFileheader)
      (headed : Sent env (Fileheader.assigned raw fh.dirid index false (toSigned filesize))
        sizeofFileheader head)
      (sent : Sent env ((Source.mapped data 0).bytes (w.store.files.create (resolve env.cwd filename)))
        (toInt (toSigned filesize)).toNat body) :
      SentFile env fh filename (index,filepath,filesize) w
        ⟨Conn.wrote (Conn.wrote w.conn head) body,
          {w.store with files := w.store.files.create (resolve env.cwd filename)}⟩

/-- The loop of `downloadfile`; it returns when the file cannot be opened. -/
inductive SentFiles (env : Env) (fh : Fileheader) (filename : Bytes) :
    List (Int × Bytes × UInt64) → World → World → Prop
  | nil (w : World) : SentFiles env fh filename [] w w
  | notOpened {item : Int × Bytes × UInt64} {rest : List (Int × Bytes × UInt64)} (w : World)
      (fails : env.diskFails ∨ ¬ env.kernel.opens filename) : SentFiles env fh filename (item :: rest) w w
  | cons {item : Int × Bytes × UInt64} {rest : List (Int × Bytes × UInt64)} {w w₁ w' : World}
      (first : SentFile env fh filename item w w₁) (others : SentFiles env fh filename rest w₁ w') :
      SentFiles env fh filename (item :: rest) w w'

inductive Downloaded (env : Env) (fh : Fileheader) (filename : Bytes) (userid : UInt64) (w : World) :
    Except Halt Unit → World → Prop
  | noResult (fails : env.selectFails) : Downloaded env fh filename userid w (.error .null) w
  | null {rows : List Cells} (order : rows.Perm
        ((selected w.store.table userid (toUnsigned fh.dirid) filename).map Row.cells))
      (null : rows.mapM Cells.item = none) : Downloaded env fh filename userid w (.error .null) w
  | files {rows : List Cells} {list : List (Int × Bytes × UInt64)} {w' : World} (order : rows.Perm
        ((selected w.store.table userid (toUnsigned fh.dirid) filename).map Row.cells))
      (items : rows.mapM Cells.item = some list) (sent : SentFiles env fh filename list w w') :
      Downloaded env fh filename userid w (.ok ()) w'

/-- What a finished call of `process` has done. -/
inductive Handled (env : Env) (me : Nat) (md5 : Bytes → Digest) (w : World) :
    Except Halt Unit → World → Prop
  | refused {out : Except Halt Unit} {w' : World} (refused : Refused env w out w') :
      Handled env me md5 w out w'
  | upload {userid : UInt64} {filename : Bytes} {fh : Fileheader} {w₁ w' : World}
      {out : Except Halt Unit} (accepted : Accepted env w userid filename fh w₁)
      (wanted : fh.upload = true) (done : Uploaded env me md5 fh filename userid w₁ out w') :
      Handled env me md5 w out w'
  | download {userid : UInt64} {filename : Bytes} {fh : Fileheader} {w₁ w' : World}
      {out : Except Halt Unit} (accepted : Accepted env w userid filename fh w₁)
      (wanted : fh.upload = false) (done : Downloaded env fh filename userid w₁ out w') :
      Handled env me md5 w out w'

section
variable {env : Env} {me : Nat} {w : World} {may : World → Call → Prop}

def Free (may : World → Call → Prop) : Prop := ∀ w c, (∀ command, c ≠ .redis command) → may w c

theorem wp_ask {c : Call} {post : Except Halt c.Res → World → Prop}
    (allowed : may w c) (after : ∀ r w', Sys env me w c r w' → post (.ok r) w') :
    Wp (Sys env me) may (ask c) post w := ⟨allowed,after⟩

theorem can_ask {c : Call} {r : c.Res} {w' : World} {post : Except Halt c.Res → World → Prop}
    (answered : Sys env me w c r w') (after : post (.ok r) w') : Can (Sys env me) (ask c) post w :=
  can_call answered (can_ret after)

theorem wp_redis {c : Command}
    {post : Except Halt c.Reply → World → Prop} (allowed : may w (.redis c))
    (after : ∀ reply s, env.redis w.store.redis c (.ok reply) s →
      post (.ok reply) ⟨w.conn,{w.store with redis := s}⟩)
    (thrown : ∀ e s, env.redis w.store.redis c (.error e) s →
      post (.error (.redis e)) ⟨w.conn,{w.store with redis := s}⟩) :
    Wp (Sys env me) may (FileTask.redis c) post w := by
  apply wp_bind
  apply wp_ask allowed
  rintro (e | reply) w' ⟨s,asked,rfl⟩
  · exact thrown e s asked
  · exact after reply s asked

theorem wp_validate {uuid : Bytes}
    {post : Except Halt (Bool × UInt64) → World → Prop} (allowed : may w (.redis (.hgetall uuid)))
    (failed : ∀ e s, env.redis w.store.redis (.hgetall uuid) (.error e) s →
      post (.error (.redis e)) ⟨w.conn,{w.store with redis := s}⟩)
    (unknown : ∀ s, env.redis w.store.redis (.hgetall uuid) (.ok []) s →
      post (.ok (false,-1)) ⟨w.conn,{w.store with redis := s}⟩)
    (notNumber : ∀ fields e s, env.redis w.store.redis (.hgetall uuid) (.ok fields) s →
      stoull (lookup fields (ascii "userid")) = .error e →
      post (.error (.numeral e)) ⟨w.conn,{w.store with redis := s}⟩)
    (valid : ∀ userid s, Session env w.store.redis uuid userid s →
      post (.ok (true,userid)) ⟨w.conn,{w.store with redis := s}⟩) :
    Wp (Sys env me) may (validate uuid) post w := by
  refine wp_bind (wp_redis allowed ?_ failed)
  intro fields s asked
  dsimp only [After]
  split_ifs with found
  · split
    next userid number =>
      exact valid userid s ⟨fields,asked,by rintro rfl; exact found rfl,number⟩
    next e bad => exact notNumber fields e s asked bad
  · obtain rfl : fields = [] := by simpa using found
    exact unknown s asked

theorem wp_isfileexits {path : Bytes} {userid : UInt64} {post : Except Halt Bool → World → Prop}
    (free : Free may) (asks : may w (.redis (.sismember (decimal userid.toNat) path)))
    (after : ∀ out r, Exists env w.store path userid out r →
      post out ⟨w.conn,{w.store with redis := r}⟩) :
    Wp (Sys env me) may (isfileexits path userid) post w := by
  refine wp_bind (wp_redis asks ?_ fun e r asked => after _ _ (.failed asked))
  intro reply r asked
  dsimp only [After]
  split_ifs with cached
  · exact after _ _ (.cached (cached ▸ asked))
  · obtain rfl : reply = false := by simpa using cached
    refine wp_bind (wp_ask (free _ _ nofun) ?_)
    rintro count w' ⟨rfl,rfl | ⟨rfl,fails⟩⟩
    · dsimp only [After]
      split_ifs with small
      · exact after _ _ (.counted asked small)
      · exact after _ _ (.tooMany asked (by omega))
    · exact after _ _ (.noResult asked fails)

variable {md5 : Bytes → Digest} {fh : Fileheader}

theorem wp_receiveChecked {fresh : Bytes} {post : Except Halt Bytes → World → Prop}
    (free : Free may)
    (after : ∀ b c, Checked env md5 fh w.conn fresh b c → post (.ok b) ⟨c,w.store⟩) :
    Wp (Sys env me) may (receiveChecked md5 fh fresh) post w := by
  -- Every round starts from a connection and a buffer that failed rounds have led to.
  refine ⟨fun b v => v.store = w.store ∧
    Relation.ReflTransGen (Resent env md5 fh) (w.conn,fresh) (v.conn,b),⟨rfl,.refl⟩,?_⟩
  rintro b ⟨c,_⟩ ⟨rfl,rounds⟩
  apply wp_bind
  apply wp_receive b _ (fun _ _ => free _ _ nofun)
  intro got c' body
  dsimp only [After]
  split_ifs with right
  · exact after _ _ (.mk rounds body right)
  · apply wp_bind
    apply wp_send _ _ (fun _ _ _ _ => free _ _ nofun)
    intro sent answer
    exact ⟨rfl,rounds.tail (.mk body right answer)⟩

theorem wp_savefile {userid : UInt64} {post : Except Halt Bytes → World → Prop} (free : Free may)
    (asks : may w (.redis (.sismember (decimal userid.toNat) (hashPath fh.md5))))
    (after : ∀ out w', Saved env me md5 fh userid w out w' → post out w') :
    Wp (Sys env me) may (savefile md5 fh userid) post w := by
  apply wp_bind
  apply wp_isfileexits free asks
  rintro (e | exist) r check
  · exact after _ _ (.unanswered check)
  apply wp_bind
  apply wp_send _ _ (fun _ _ _ _ => free _ _ nofun)
  intro sent answer
  dsimp only [After]
  cases exist with
  | true => exact after _ _ (.known check answer)
  | false =>
    rw [if_neg (by simp)]
    split_ifs with negative
    · exact after _ _ (.noMemory check answer (.inl negative))
    refine wp_bind (wp_ask (free _ _ nofun) ?_)
    rintro memory w' ⟨rfl,⟨fresh,rfl,size,_⟩ | ⟨rfl,fails⟩⟩
    · apply wp_bind
      apply wp_receiveChecked free
      intro b c checked
      have kept (files : Files) (kept : Kept env me w.store.files (hashPath fh.md5) b files) :
          post (.ok (hashPath fh.md5)) ⟨c,{w.store with redis := r, files := files}⟩ :=
        after _ _ (.stored check answer (by omega) size checked kept)
      refine wp_bind (wp_ask (free _ _ nofun) ?_)
      rintro fd w' (⟨rfl,_,rfl⟩ | ⟨rfl,fails,rfl⟩)
      · refine wp_bind (wp_ask (free _ _ nofun) ?_)
        rintro _ w' (⟨whole,rfl⟩ | ⟨fails,rfl | ⟨n,rfl⟩⟩)
        · refine wp_bind (wp_ask (free _ _ nofun) ?_)
          rintro _ w' rfl
          exact kept _ (.full whole)
        · refine wp_bind (wp_ask (free _ _ nofun) ?_)
          rintro _ w' rfl
          exact kept _ (.notWritten fails)
        · refine wp_bind (wp_ask (free _ _ nofun) ?_)
          rintro _ w' rfl
          exact kept _ (.part fails n)
      · refine wp_bind (wp_ask (free _ _ nofun) ?_)
        rintro _ w' rfl
        refine wp_bind (wp_ask (free _ _ nofun) ?_)
        rintro _ w' rfl
        exact kept _ (.notOpened fails)
    · exact after _ _ (.noMemory check answer (.inr fails))

theorem wp_upload {filename : Bytes} {userid : UInt64} {post : Except Halt Unit → World → Prop}
    (free : Free may) (asks : may w (.redis (.sismember (decimal userid.toNat) (hashPath fh.md5))))
    (adds : ∀ w₁ table, Saved env me md5 fh userid w (.ok (hashPath fh.md5)) w₁ →
      Inserted env w₁.store.table (newRow fh filename userid) table →
      may ⟨w₁.conn,{w₁.store with table := table}⟩
        (.redis (.sadd (decimal userid.toNat) (hashPath fh.md5))))
    (sets : ∀ w, may w (.redis (.setex (decimal userid.toNat) (4 * 60 * 60) (hashPath fh.md5))))
    (after : ∀ out w', Uploaded env me md5 fh filename userid w out w' → post out w') :
    Wp (Sys env me) may (upload md5 fh filename userid) post w := by
  apply wp_bind
  apply wp_savefile free asks
  rintro (e | path) w₁ saved
  · exact after _ _ (.notSaved saved)
  obtain rfl : path = hashPath fh.md5 := by cases saved <;> rfl
  refine wp_bind (wp_ask (free _ _ nofun) fun done w₂ answered => ?_)
  obtain ⟨table,rfl,inserted⟩ : ∃ table, w₂ = ⟨w₁.conn,{w₁.store with table := table}⟩ ∧
      Inserted env w₁.store.table (newRow fh filename userid) table := by
    rcases answered with ⟨_,rfl⟩ | ⟨_,fails,rfl⟩
    · exact ⟨_,rfl,.done⟩
    · exact ⟨_,rfl,.lost fails⟩
  refine wp_bind (wp_redis (adds _ _ saved inserted) ?_ fun e r added => ?_)
  · intro _ r added
    have finished (out : Except RedisError Unit) (r' : Redis.State) (set : env.redis r
        (.setex (decimal userid.toNat) (4 * 60 * 60) (hashPath fh.md5)) out r') :
        Uploaded env me md5 fh filename userid w (out.mapError .redis)
          ⟨w₁.conn,{w₁.store with table := table, redis := r'}⟩ :=
      .added saved inserted added set
    exact wp_redis (sets _) (fun _ r' set => after _ _ (finished (.ok ()) r' set))
      fun e r' set => after _ _ (finished (.error e) r' set)
  · have halted : Uploaded env me md5 fh filename userid w (.error (.redis e))
        ⟨w₁.conn,{w₁.store with table := table, redis := r}⟩ := .notAdded saved inserted added
    exact after _ _ halted

theorem wp_getfilelist {uid dirid : UInt64} {filename : Bytes}
    {post : Except Halt (List (Int × Bytes × UInt64)) → World → Prop}
    (allowed : may w (.query (.selectFiles uid dirid filename)))
    (noResult : env.selectFails → post (.error .null) w)
    (fetched : ∀ rows : List Cells, rows.Perm ((selected w.store.table uid dirid filename).map Row.cells) →
      post (((rows.mapM Cells.item).map .ok).getD (.error .null)) w) :
    Wp (Sys env me) may (getfilelist uid dirid filename) post w := by
  apply wp_bind
  apply wp_ask allowed
  rintro _ w' ⟨rfl,⟨rows,rfl,order⟩ | ⟨rfl,fails⟩⟩
  · have result := fetched rows order
    dsimp only [After]
    split
    next list items => simpa [items] using result
    next null => simpa [null] using result
  · exact noResult fails

theorem wp_sendFiles {filename : Bytes} {list : List (Int × Bytes × UInt64)}
    {post : Except Halt Unit → World → Prop} (free : Free may)
    (after : ∀ w', SentFiles env fh filename list w w' → post (.ok ()) w') :
    Wp (Sys env me) may (sendFiles fh filename list) post w := by
  induction list generalizing w with
  | nil => exact after _ (.nil w)
  | cons item rest ih =>
    obtain ⟨index,filepath,filesize⟩ := item
    refine wp_bind (wp_ask (free _ _ nofun) ?_)
    rintro fd w' (⟨rfl,opened,rfl⟩ | ⟨rfl,fails,rfl⟩)
    · refine wp_bind (wp_ask (free _ _ nofun) ?_)
      rintro data w' ⟨rfl,mapped⟩
      refine wp_bind (wp_ask (free _ _ nofun) ?_)
      rintro raw w' ⟨rfl,size⟩
      apply wp_bind
      apply wp_send _ _ (fun _ _ _ _ => free _ _ nofun)
      intro head headed
      apply wp_bind
      apply wp_send _ _ (fun _ _ _ _ => free _ _ nofun)
      intro body sent
      refine wp_bind (wp_ask (free _ _ nofun) ?_)
      rintro _ w' rfl
      refine wp_bind (wp_ask (free _ _ nofun) ?_)
      rintro _ w' rfl
      exact ih fun w' others => after _ (.cons (.mk opened mapped size headed sent) others)
    · exact after _ (.notOpened _ fails)

theorem wp_downloadfile {filename : Bytes} {userid : UInt64} {post : Except Halt Unit → World → Prop}
    (free : Free may) (after : ∀ out w', Downloaded env fh filename userid w out w' → post out w') :
    Wp (Sys env me) may (downloadfile fh filename userid) post w := by
  apply wp_bind
  apply wp_getfilelist (free _ _ nofun) (fun fails => after _ _ (.noResult fails))
  intro rows order
  cases items : rows.mapM Cells.item with
  | none => exact after _ _ (.null order items)
  | some list => exact wp_sendFiles free fun w' sent => after _ _ (.files order items sent)

/-- A call of `process` may ask for its session, and an upload for the cache of its user. -/
theorem wp_process {post : Except Halt Unit → World → Prop} (free : Free may)
    (gets : ∀ got beyond c, Received env w.conn sizeofDatauuid got c →
      may ⟨c,w.store⟩ (.redis (.hgetall (uuidOf (filled sizeofDatauuid got) beyond))))
    (asks : ∀ userid filename fh w₁, Accepted env w userid filename fh w₁ → fh.upload = true →
      may w₁ (.redis (.sismember (decimal userid.toNat) (hashPath fh.md5))))
    (adds : ∀ userid filename fh w₁ w₂ table, Accepted env w userid filename fh w₁ →
      fh.upload = true → Saved env me md5 fh userid w₁ (.ok (hashPath fh.md5)) w₂ →
      Inserted env w₂.store.table (newRow fh filename userid) table →
      may ⟨w₂.conn,{w₂.store with table := table}⟩
        (.redis (.sadd (decimal userid.toNat) (hashPath fh.md5))))
    (sets : ∀ w key ttl value, may w (.redis (.setex key ttl value)))
    (after : ∀ out w', Handled env me md5 w out w' → post out w') :
    Wp (Sys env me) may (process md5) post w := by
  apply wp_bind
  apply wp_receive _ _ (fun _ _ => free _ _ nofun)
  intro got c₁ record
  refine wp_bind (wp_ask (free _ _ nofun) ?_)
  rintro beyond w' rfl
  refine wp_bind (wp_validate (gets _ _ _ record) (fun e s asked => after _ _ (.refused (.failed record asked)))
    (fun s asked => ?_) (fun fields e s asked bad => after _ _ (.refused (.notNumber record asked bad)))
    fun userid s session => ?_)
  · apply wp_bind
    apply wp_send _ _ (fun _ _ _ _ => free _ _ nofun)
    intro sent answer
    exact after _ _ (.refused (.unknown record asked answer))
  · apply wp_bind
    apply wp_send _ _ (fun _ _ _ _ => free _ _ nofun)
    intro sent answer
    dsimp only [After]
    rw [if_pos rfl]
    split_ifs with bounds
    · refine wp_bind (wp_ask (free _ _ nofun) ?_)
      rintro fits w' ⟨rfl,⟨rfl,room⟩ | ⟨rfl,full⟩⟩
      swap
      · exact after _ _ (.refused (.noRoom record session answer bounds.1 bounds.2 full))
      dsimp only [After]
      rw [if_pos rfl]
      apply wp_bind
      apply wp_receive _ _ (fun _ _ => free _ _ nofun)
      intro name c₂ named
      apply wp_bind
      apply wp_receive _ _ (fun _ _ => free _ _ nofun)
      intro header c₃ headed
      rw [toInt_eq_self bounds.1 (by omega)] at named
      have accepted : Accepted env w userid _ _ _ :=
        .mk record session answer bounds.1 bounds.2 room named headed
      dsimp only [After]
      split_ifs with wanted
      · exact wp_upload free (asks _ _ _ _ accepted wanted)
          (fun w₂ table => adds _ _ _ _ w₂ table accepted wanted) (fun w => sets w _ _ _) fun out w' done =>
            after _ _ (.upload accepted wanted done)
      · exact wp_downloadfile free fun out w' done =>
          after _ _ (.download accepted (eq_false_of_ne_true wanted) done)
    · exact after _ _ (.refused (.badLength record session answer bounds))

theorem process_cases {out : Except Halt Unit} {w' : World}
    (run : Runs (Sys env me) (process md5) w out w') : Handled env me md5 w out w' :=
  wp_runs run (@wp_process _ _ _ (fun _ _ => True) _ _ (fun _ _ _ => trivial)
    (fun _ _ _ _ => trivial) (fun _ _ _ _ _ _ => trivial) (fun _ _ _ _ _ _ _ _ _ _ => trivial)
    (fun _ _ _ _ => trivial) fun _ _ handled => handled)

end

end FilediskServer.FileTaskRuns
