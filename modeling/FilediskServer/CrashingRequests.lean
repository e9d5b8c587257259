import FilediskServer.TruncatedRequests

/-! The requests on which a call of `process` does not return: it throws, which nothing catches, reads
a null pointer of MySQL, has no room or no meaning for its array of the name. Each of them takes down
every other connection with its own. -/
namespace FilediskServer.CrashingRequests
open Interaction Bytes CusInfo Redis Filetree Disk Calls SocketIO FileTask FileTaskRuns Downloads
open KeyTypes TruncatedRequests UploadHistory

/-- The request has arrived up to its header, under a session of the user, and the stack has room
for its name. -/
structure Opened (k : Kernel) (w : World) (userid : UInt64) : Prop where
  session : ∃ beyond, SessionOf w.store.redis.keys (uuidOf (recordRead w.conn) beyond) userid
  low : 0 ≤ namelenOf (recordRead w.conn)
  high : namelenOf (recordRead w.conn) + 1 < 2 ^ 31
  room : k.arrays (namelenOf (recordRead w.conn) + 1).toNat
  arrives : Arrives w.conn (afterName w.conn + sizeofFileheader)

def Uncached (s : Store) (path : Bytes) (userid : UInt64) : Prop :=
  (exec s.redis.keys (.sismember (decimal userid.toNat) path)).1 = .ok false

/-- How an upload ends the server. -/
inductive UploadCrashes (env : Env) (s : Store) (fh : Fileheader) (userid : UInt64) : Halt → Prop
  | wrongCache (other : ¬ Suits s.redis.keys (.sismember (decimal userid.toNat) (hashPath fh.md5))) :
      UploadCrashes env s fh userid (.redis .wrongtype)
  | noCount (uncached : Uncached s (hashPath fh.md5) userid) (fails : env.selectFails) :
      UploadCrashes env s fh userid .null
  | tooMany (uncached : Uncached s (hashPath fh.md5) userid) (large : 2 ^ 31 ≤ pathCount s.table (hashPath fh.md5)) :
      UploadCrashes env s fh userid (.numeral .outOfRange)
  | noMemory (absent : known s (hashPath fh.md5) userid = some false) (why : fh.filelen < 0 ∨
        env.memoryFails ∨ ¬ env.kernel.allocates fh.filelen.toNat) : UploadCrashes env s fh userid .badAlloc

inductive DownloadCrashes (env : Env) (s : Store) (fh : Fileheader) (filename : Bytes) (userid : UInt64) :
    Halt → Prop
  | noRows (fails : env.selectFails) : DownloadCrashes env s fh filename userid .null
  | null {row : Row} (inside : row ∈ selected s.table userid (toUnsigned fh.dirid) filename)
      (null : row.index = none) : DownloadCrashes env s fh filename userid .null

/-- What ends the server, by what has arrived and what is stored. -/
inductive Crashes (env : Env) (w : World) : Halt → Prop
  | wrongKey {beyond : Bytes} (arrives : Arrives w.conn sizeofDatauuid)
      (other : ¬ Suits w.store.redis.keys (.hgetall (uuidOf (recordRead w.conn) beyond))) :
      Crashes env w (.redis .wrongtype)
  | notNumber {beyond : Bytes} {fields : List (Bytes × Bytes)} {expires : Bool} {e : NumeralError}
      (arrives : Arrives w.conn sizeofDatauuid)
      (held : w.store.redis.keys (uuidOf (recordRead w.conn) beyond) = some ⟨.hash fields,expires⟩)
      (some : fields ≠ []) (bad : stoull (lookup fields (ascii "userid")) = .error e) : Crashes env w (.numeral e)
  | badLength {beyond : Bytes} {userid : UInt64} (arrives : Arrives w.conn sizeofDatauuid)
      (session : SessionOf w.store.redis.keys (uuidOf (recordRead w.conn) beyond) userid)
      (bad : ¬ (0 ≤ namelenOf (recordRead w.conn) ∧ namelenOf (recordRead w.conn) + 1 < 2 ^ 31)) :
      Crashes env w .undefined
  | noRoom {beyond : Bytes} {userid : UInt64} (arrives : Arrives w.conn sizeofDatauuid)
      (session : SessionOf w.store.redis.keys (uuidOf (recordRead w.conn) beyond) userid)
      (low : 0 ≤ namelenOf (recordRead w.conn)) (high : namelenOf (recordRead w.conn) + 1 < 2 ^ 31)
      (full : env.memoryFails ∨ ¬ env.kernel.arrays (namelenOf (recordRead w.conn) + 1).toNat) :
      Crashes env w .stackOverflow
  | upload {userid : UInt64} {e : Halt} (opened : Opened env.kernel w userid)
      (wanted : (headerRead w.conn).upload = true)
      (crashes : UploadCrashes env w.store (headerRead w.conn) userid e) : Crashes env w e
  | download {userid : UInt64} {e : Halt} (opened : Opened env.kernel w userid)
      (wanted : (headerRead w.conn).upload = false)
      (crashes : DownloadCrashes env w.store (headerRead w.conn) (nameRead w.conn) userid e) : Crashes env w e

theorem exec_error {k : Keyspace} {c : Command} {e : RedisError} (failed : (exec k c).1 = .error e) :
    e = .wrongtype ∧ ¬ Suits k c := by
  obtain rfl : e = .wrongtype := by
    cases c with
    | setex => cases failed
    | hmset | hgetall | sismember | sadd =>
      simp only [exec] at failed
      split at failed <;> cases failed
      rfl
  exact ⟨rfl,fun suits => (exec_ok_iff_suits k c).mpr suits failed⟩

section crashes
variable {env : Env} {me : Nat} {md5 : Bytes → Digest} {w : World} {fh : Fileheader} {filename : Bytes}
  {userid : UInt64} {e : Halt}

theorem allows_of_typed (answers : env.redis = typed) (s : Redis.State) (c : Command) (r : Except RedisError c.Reply)
    (s' : Redis.State) (executed : typed s c r s') : env.redis s c r s' := answers ▸ executed

theorem asked_cache (answers : env.redis = typed) {s : Store} {r : Redis.State} {path : Bytes} {v : Bool}
    (asked : env.redis s.redis (.sismember (decimal userid.toNat) path) (.ok v) r) :
    r = s.redis ∧ (exec s.redis.keys (.sismember (decimal userid.toNat) path)).1 = .ok v := by
  rw [answers] at asked
  obtain ⟨reply,rfl⟩ := asked
  rw [(exec_reads _ _ _).2]
  exact ⟨rfl,reply.symm⟩

theorem exists_answers (answers : env.redis = typed) {s : Store} {r : Redis.State} {path : Bytes} {b : Bool}
    (check : Exists env s path userid (.ok b) r) : r = s.redis ∧ known s path userid = some b := by
  cases check with
  | cached asked =>
    obtain ⟨same,reply⟩ := asked_cache answers asked
    exact ⟨same,by rw [known,reply]⟩
  | counted asked small =>
    obtain ⟨same,reply⟩ := asked_cache answers asked
    exact ⟨same,by rw [known,reply]; exact if_pos small⟩

theorem known_suits {s : Store} {path : Bytes} {b : Bool} (answer : known s path userid = some b) :
    Suits s.redis.keys (.sismember (decimal userid.toNat) path) := by
  apply (exec_ok_iff_suits _ _).mp
  intro failed
  rw [known,failed] at answer
  cases answer

/-- An upload that is saved finds the cache as it was when it asked. -/
theorem saved_suits (answers : env.redis = typed) {w₁ : World} {path : Bytes}
    (saved : Saved env me md5 fh userid w (.ok path) w₁) : w₁.store.redis = w.store.redis ∧
      Suits w.store.redis.keys (.sadd (decimal userid.toNat) path) := by
  cases saved with
  | known check | stored check =>
    obtain ⟨same,answer⟩ := exists_answers answers check
    exact ⟨same,known_suits answer⟩

theorem uploaded_crashes (answers : env.redis = typed) {out : Except Halt Unit} {w' : World}
    (uploaded : Uploaded env me md5 fh filename userid w out w') (thrown : out = .error e) :
    UploadCrashes env w.store fh userid e := by
  cases uploaded with
  | notSaved saved =>
    cases thrown
    cases saved with
    | unanswered check =>
      cases check with
      | failed asked =>
        rw [answers] at asked
        obtain ⟨rfl,other⟩ := exec_error asked.1.symm
        exact .wrongCache other
      | tooMany asked large => exact .tooMany (asked_cache answers asked).2 large
      | noResult asked fails => exact .noCount (asked_cache answers asked).2 fails
    | noMemory check _ why => exact .noMemory (exists_answers answers check).2 why
  | notAdded saved _ added =>
    obtain ⟨same,suits⟩ := saved_suits answers saved
    rw [answers,same] at added
    exact absurd suits (exec_error added.1.symm).2
  | added _ _ _ set =>
    rw [answers] at set
    obtain ⟨rfl,_⟩ := set
    cases thrown

theorem downloaded_crashes {w' : World} (downloaded : Downloaded env fh filename userid w (.error e) w') :
    DownloadCrashes env w.store fh filename userid e := by
  cases downloaded with
  | noResult fails => exact .noRows fails
  | null order null =>
    have some : ¬ ∀ row ∈ selected w.store.table userid (toUnsigned fh.dirid) filename, row.index ≠ none := by
      rw [← rows_fetched order,null]
      rintro ⟨_,fetched⟩
      cases fetched
    push Not at some
    obtain ⟨row,inside,empty⟩ := some
    exact .null inside empty

theorem wp_validate_typed {may : World → Call → Prop} (answers : env.redis = typed) {uuid : Bytes}
    {post : Except Halt (Bool × UInt64) → World → Prop} (allowed : may w (.redis (.hgetall uuid)))
    (unknown : post (.ok (false,-1)) w)
    (valid : ∀ userid, SessionOf w.store.redis.keys uuid userid → post (.ok (true,userid)) w)
    (wrongKey : ¬ Suits w.store.redis.keys (.hgetall uuid) → post (.error (.redis .wrongtype)) w)
    (notNumber : ∀ fields expires e, w.store.redis.keys uuid = some ⟨.hash fields,expires⟩ → fields ≠ [] →
      stoull (lookup fields (ascii "userid")) = .error e → post (.error (.numeral e)) w) :
    Wp (Sys env me) may (validate uuid) post w := by
  have kept {r : Except RedisError (List (Bytes × Bytes))} {s : Redis.State}
      (asked : env.redis w.store.redis (.hgetall uuid) r s) :
      s = w.store.redis ∧ (exec w.store.redis.keys (.hgetall uuid)).1 = r := by
    rw [answers] at asked
    obtain ⟨reply,rfl⟩ := asked
    rw [(exec_reads _ uuid []).1]
    exact ⟨rfl,reply.symm⟩
  refine wp_bind (wp_redis allowed (fun fields s asked => ?_) fun e s asked => ?_)
  · obtain ⟨rfl,reply⟩ := kept asked
    dsimp only [After]
    split_ifs with some
    · obtain ⟨expires,held⟩ : ∃ expires, w.store.redis.keys uuid = .some ⟨.hash fields,expires⟩ := by
        simp only [exec] at reply
        split at reply
        · cases reply
          exact absurd rfl some
        · cases reply
          exact ⟨_,‹_›⟩
        · cases reply
      have nonempty : fields ≠ [] := fun none => some (none ▸ rfl)
      split
      next number => exact valid _ ⟨fields,expires,held,nonempty,number⟩
      next bad => exact notNumber fields expires _ held nonempty bad
    · exact unknown
  · obtain ⟨rfl,reply⟩ := kept asked
    obtain ⟨rfl,other⟩ := exec_error reply
    exact wrongKey other

/-- Whatever ends the server has its cause in the request or in what is stored. -/
theorem wp_crashes (answers : env.redis = typed) (reads : ∀ c, ¬ env.readFails c) :
    Wp (Sys env me) (fun _ _ => True) (process md5) (fun out _ => ∀ e, out = .error e → Crashes env w e) w := by
  apply wp_bind
  apply wp_receive _ _ (fun _ _ => trivial)
  intro got c record
  obtain ⟨rfl,rfl,first⟩ := (show Received env _ sizeofDatauuid got c from record).start reads
  rw [show overlay (zeros sizeofDatauuid) 0 (w.conn.input.take sizeofDatauuid) = recordRead w.conn from rfl]
  refine wp_bind (wp_ask trivial ?_)
  rintro beyond _ rfl
  refine wp_bind (wp_validate_typed answers trivial ?_ (fun userid session => ?_) (fun other e thrown => ?_)
    fun fields expires n held some bad e thrown => ?_)
  · apply wp_bind
    apply wp_send _ _ (fun _ _ _ _ => trivial)
    intro _ _ e thrown
    cases thrown
  · apply wp_bind
    apply wp_send _ _ (fun _ _ _ _ => trivial)
    intro sent _
    dsimp only [After]
    rw [if_pos rfl]
    split_ifs with bounds
    · have length := toInt_eq_self bounds.1 (by omega)
      apply wp_bind
      apply wp_ask trivial
      rintro fits _ ⟨rfl,⟨rfl,room⟩ | ⟨rfl,full⟩⟩
      case inr =>
        intro e thrown
        cases thrown
        exact .noRoom first session bounds.1 bounds.2 full
      dsimp only [After]
      rw [if_pos rfl]
      apply wp_bind
      apply wp_receive _ _ (fun _ _ => trivial)
      intro name c named
      rw [length] at named
      obtain ⟨rfl,rfl,second⟩ := named.start reads
      apply wp_bind
      apply wp_receive _ _ (fun _ _ => trivial)
      intro header c headed
      obtain ⟨rfl,rfl,third⟩ := (show Received env _ sizeofFileheader header c from headed).start reads
      have opened : Opened env.kernel w userid := by
        refine ⟨⟨beyond,session⟩,bounds.1,bounds.2,room,third.imp_left fun enough => ?_⟩
        simp only [List.length_drop] at enough
        simp only [afterName,sizeofFileheader] at enough ⊢
        omega
      dsimp only [After,Conn.wrote]
      rw [header_read]
      split_ifs with wanted
      · refine wp_upload (fun _ _ _ => trivial) trivial (fun _ _ _ _ => trivial) (fun _ => trivial) ?_
        intro out w' done e thrown
        have cause := uploaded_crashes answers done thrown
        exact .upload opened wanted cause
      · refine wp_downloadfile (fun _ _ _ => trivial) fun out w' done e thrown => ?_
        subst thrown
        have cause := downloaded_crashes done
        exact .download opened (eq_false_of_ne_true wanted) cause
    · intro e thrown
      cases thrown
      exact .badLength first session bounds
  · cases thrown
    exact .wrongKey first other
  · cases thrown
    exact .notNumber first held some bad

theorem can_redis_typed (answers : env.redis = typed) {c : Command} {r : Except RedisError c.Reply}
    {post : Except Halt c.Reply → World → Prop} (reply : (exec w.store.redis.keys c).1 = r)
    (after : post (r.mapError .redis) ⟨w.conn,{w.store with
      redis := ⟨(exec w.store.redis.keys c).2,record w.store.redis.added c⟩}⟩) :
    Can (Sys env me) (FileTask.redis c) post w := by
  have asked : env.redis w.store.redis c r ⟨(exec w.store.redis.keys c).2,record w.store.redis.added c⟩ := by
    rw [answers]
    exact ⟨reply.symm,rfl⟩
  refine can_bind (can_ask ⟨_,asked,rfl⟩ ?_)
  cases r with
  | ok reply => exact can_ret after
  | error e => exact can_throw after

theorem wrongtype_of_not_suits {k : Keyspace} {c : Command} (other : ¬ Suits k c) :
    (exec k c).1 = .error .wrongtype := not_not.mp (mt (exec_ok_iff_suits k c).mp other)

theorem can_upload_crash (answers : env.redis = typed) (crashes : UploadCrashes env w.store fh userid e) :
    Can (Sys env me) (upload md5 fh filename userid) (fun out _ => out = .error e) w := by
  have allows := allows_of_typed answers
  cases crashes with
  | wrongCache other =>
    exact can_bind (can_bind (can_bind (can_redis_typed answers (wrongtype_of_not_suits other) rfl)))
  | noCount uncached fails =>
    refine can_bind (can_bind (can_bind (can_redis_typed answers uncached ?_)))
    refine can_bind (can_ask (r := none) ⟨rfl,.inr ⟨rfl,fails⟩⟩ ?_)
    exact can_throw rfl
  | tooMany uncached large =>
    refine can_bind (can_bind (can_bind (can_redis_typed answers uncached ?_)))
    refine can_bind (can_ask (r := some (pathCount w.store.table (hashPath fh.md5))) ⟨rfl,.inl rfl⟩ ?_)
    dsimp only [After]
    rw [if_neg (not_lt.mpr large)]
    exact can_throw rfl
  | noMemory absent why =>
    refine can_bind (can_bind (can_known allows absent (can_bind (can_send _ _ ?_))))
    dsimp only [After]
    rw [if_neg (by simp)]
    by_cases negative : fh.filelen < 0
    · rw [if_pos negative]
      exact can_throw rfl
    · rw [if_neg negative]
      refine can_bind (can_ask (r := none) ⟨rfl,.inr ⟨rfl,why.resolve_left negative⟩⟩ ?_)
      exact can_throw rfl

theorem can_download_crash (crashes : DownloadCrashes env w.store fh filename userid e) :
    Can (Sys env me) (downloadfile fh filename userid) (fun out _ => out = .error e) w := by
  cases crashes with
  | noRows fails =>
    refine can_bind (can_bind (can_ask (r := none) ⟨rfl,.inr ⟨rfl,fails⟩⟩ ?_))
    exact can_throw rfl
  | null inside empty =>
    refine can_bind (can_bind (can_ask (r := some _) ⟨rfl,.inl ⟨_,rfl,.refl _⟩⟩ ?_))
    have none : ((selected w.store.table userid (toUnsigned fh.dirid) filename).map Row.cells).mapM Cells.item =
        none := by
      by_contra some
      have fetched := (rows_fetched (.refl _)).mp (Option.ne_none_iff_exists'.mp some)
      exact fetched _ inside empty
    dsimp only [After]
    rw [none]
    exact can_throw rfl

/-- The request of a user is read up to its header. -/
theorem leads_open (allows : ∀ s c r s', typed s c r s' → env.redis s c r s') (opened : Opened env.kernel w userid)
    {Q : Job Unit → World → Prop} (after : ∀ output, Leads (Sys env me) (if (headerRead w.conn).upload then
      upload md5 (headerRead w.conn) (nameRead w.conn) userid else
      downloadfile (headerRead w.conn) (nameRead w.conn) userid) Q
      ⟨⟨w.conn.input.drop (afterName w.conn + sizeofFileheader),w.conn.ended,output⟩,w.store⟩) :
    Leads (Sys env me) (process md5) Q w := by
  obtain ⟨conn,⟨redis,table,files⟩⟩ := w
  obtain ⟨⟨beyond,session⟩,low,high,room,arrives⟩ := opened
  have length : toInt (namelenOf (overlay (zeros sizeofDatauuid) 0 (conn.input.take sizeofDatauuid))) =
      namelenOf (recordRead conn) := by
    have bound : namelenOf (recordRead conn) + 1 < 2 ^ 31 := high
    exact toInt_eq_self low (show namelenOf (recordRead conn) < 2 ^ 31 by omega)
  refine leads_then (can_receive _ (arrives_record arrives) ?_)
  refine leads_then (can_ask (r := beyond) rfl ?_)
  refine leads_then (can_validate allows session (leads_then (can_send _ _ ?_)))
  dsimp only [After]
  rw [if_pos rfl,if_pos ⟨low,high⟩]
  refine leads_then (can_ask (r := true) ⟨rfl,.inl ⟨rfl,room⟩⟩ ?_)
  dsimp only [After]
  rw [if_pos rfl]
  refine leads_then (can_receive _ (arrives_name low high arrives) ?_)
  refine leads_then (can_receive _ (arrives_header low high arrives) ?_)
  have header := header_read conn
  have rest : ((conn.input.drop sizeofDatauuid).drop (namelenOf (recordRead conn)).toNat).drop sizeofFileheader =
      conn.input.drop (afterName conn + sizeofFileheader) := by
    rw [List.drop_drop,List.drop_drop]
    rfl
  have forty : (toInt (40 : Nat)).toNat = 40 := rfl
  dsimp only [After,sizeofDatauuid,sizeofFileheader] at length header rest ⊢
  simp only [forty,length,header,rest]
  exact after _

theorem can_crash (answers : env.redis = typed) (crashes : Crashes env w e) :
    Can (Sys env me) (process md5) (fun out _ => out = .error e) w := by
  have allows := allows_of_typed answers
  cases crashes with
  | @wrongKey beyond arrives other =>
    refine can_bind (can_receive _ arrives (can_bind (can_ask (r := beyond) rfl ?_)))
    exact can_bind (can_bind (can_redis_typed answers (wrongtype_of_not_suits other) rfl))
  | @notNumber beyond fields expires e arrives held some bad =>
    have reply : (exec w.store.redis.keys (.hgetall (uuidOf (recordRead w.conn) beyond))).1 = .ok fields := by
      simp only [exec,held]
    refine can_bind (can_receive _ arrives (can_bind (can_ask (r := beyond) rfl ?_)))
    refine can_bind (can_bind (can_redis_typed answers reply ?_))
    have found : fields.length ≠ 0 := by simpa using some
    dsimp only [After,Except.mapError]
    rw [if_pos found,bad]
    exact can_throw rfl
  | @badLength beyond userid arrives session bad =>
    obtain ⟨conn,⟨redis,table,files⟩⟩ := w
    refine can_bind (can_receive _ arrives (can_bind (can_ask (r := beyond) rfl ?_)))
    refine can_bind (can_validate allows session (can_bind (can_send _ _ ?_)))
    dsimp only [After]
    rw [if_pos rfl]
    split_ifs with inside
    · exact absurd inside bad
    · exact can_throw rfl
  | @noRoom beyond userid arrives session low high full =>
    obtain ⟨conn,⟨redis,table,files⟩⟩ := w
    refine can_bind (can_receive _ arrives (can_bind (can_ask (r := beyond) rfl ?_)))
    refine can_bind (can_validate allows session (can_bind (can_send _ _ ?_)))
    dsimp only [After]
    rw [if_pos rfl]
    split_ifs with inside
    · refine can_bind (can_ask (r := false) ⟨rfl,.inr ⟨rfl,full⟩⟩ ?_)
      exact can_throw rfl
    · exact absurd ⟨low,high⟩ inside
  | upload opened wanted crashes =>
    refine can_of_leads (leads_open allows opened fun output => leads_here ?_)
    rw [if_pos wanted]
    exact can_upload_crash answers crashes
  | download opened wanted crashes =>
    refine can_of_leads (leads_open allows opened fun output => leads_here ?_)
    rw [if_neg (by rw [wanted]; exact Bool.false_ne_true)]
    exact can_download_crash crashes

/-- `process` ends so exactly for these requests. -/
theorem crashes_iff (answers : env.redis = typed) (reads : ∀ c, ¬ env.readFails c) :
    (∃ w', Runs (Sys env me) (process md5) w (.error e) w') ↔ Crashes env w e := by
  constructor
  · rintro ⟨w',run⟩
    have cause := wp_runs run (wp_crashes answers reads)
    exact cause e rfl
  · intro crashes
    have ends : Can (Sys env me) (process md5) (fun out _ => out = .error e) w := can_crash answers crashes
    obtain ⟨_,w',run,rfl⟩ := ends
    exact ⟨w',run⟩

end crashes

section sample

def sampleUnnamed : Conn where
  input := recordOf (ascii "s2") (-1)
  ended := false
  output := []

theorem sampleStored_second : SessionOf sampleStored.redis.keys (ascii "s2") 2 := by
  have held : sampleStored.redis.keys (ascii "s2") = some
      ⟨.hash [(ascii "username",ascii "bob"),(ascii "userid",ascii "2")],false⟩ := by decide +kernel
  exact ⟨_,_,held,by simp,by decide⟩

theorem sample_crashes : Crashes (calm []) ⟨sampleUnnamed,sampleStored⟩ .undefined := by
  have key : uuidOf (recordRead sampleUnnamed) [] = ascii "s2" := by decide +kernel
  have session : SessionOf sampleStored.redis.keys (uuidOf (recordRead sampleUnnamed) []) 2 :=
    key ▸ sampleStored_second
  exact .badLength (.inl (by decide +kernel)) session (by decide +kernel)

theorem sample_crashes_iff :
    ∃ w', Runs (Sys (calm []) 0) (process sampleMd5) ⟨sampleUnnamed,sampleStored⟩ (.error .undefined) w' :=
  (crashes_iff rfl fun _ fails => fails).mpr sample_crashes

end sample

end FilediskServer.CrashingRequests
