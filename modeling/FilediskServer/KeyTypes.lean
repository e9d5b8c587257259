import FilediskServer.Downloads

/-! The types of the Redis keys over any sequence of calls of `process`. A key is chosen by
the client before it is known who that is, and the key of a user's cache is used for a set
and for a string. -/
namespace FilediskServer.KeyTypes
open Interaction Bytes CusInfo Redis Filetree Disk Calls SocketIO FileTask FileTaskRuns UploadHistory
open Downloads

/-- Redis with keys that expire at any time; nothing but a failing read is ruled out. -/
def typedEnv (cwd : File) : Env where
  redis := expiring
  cwd := cwd
  kernel := .ample
  readFails _ := False
  writeFails := True
  diskFails := True
  insertFails := True
  selectFails := True
  memoryFails := True

def Arrives (c : Conn) (n : Nat) : Prop := n ≤ c.input.length ∨ c.ended = true

def recordRead (c : Conn) : Bytes := filled sizeofDatauuid (c.input.take sizeofDatauuid)

def afterName (c : Conn) : Nat := sizeofDatauuid + (namelenOf (recordRead c)).toNat

def headerRead (c : Conn) : Fileheader :=
  Fileheader.read (filled sizeofFileheader ((c.input.drop (afterName c)).take sizeofFileheader))

/-- The key in the record holds a session or nothing; and when the request is an upload that
is accepted, the key of its user's cache is free. -/
structure Clean (k : Keyspace) (c : Conn) : Prop where
  session : Arrives c sizeofDatauuid → ∀ beyond, Suits k (.hgetall (uuidOf (recordRead c) beyond))
  cache : ∀ beyond userid, SessionOf k (uuidOf (recordRead c) beyond) userid →
    0 ≤ namelenOf (recordRead c) → namelenOf (recordRead c) + 1 < 2 ^ 31 →
    Arrives c (afterName c + sizeofFileheader) → (headerRead c).upload = true →
    k (decimal userid.toNat) = none

/-- Commands meet keys that suit them, at every point of every run; the rest is free. -/
def Suiting : World → Call → Prop := fun w c =>
  match c with
  | .redis c => Suits w.store.redis.keys c
  | _ => True

/-- No command of the call meets a key of another type, and no run of it ends in that error. -/
structure TypesKept (cwd : File) (task : Nat) (md5 : Bytes → Digest) (w : World) : Prop where
  commands : ∀ c k w', Reaches (Sys (typedEnv cwd) task) (process md5) w (.call (.redis c) k) w' →
    Suits w'.store.redis.keys c
  ends : ∀ out w', Runs (Sys (typedEnv cwd) task) (process md5) w out w' →
    out ≠ .error (.redis .wrongtype)

theorem suiting_free : Free Suiting := by
  intro w c other
  cases c with
  | redis c => exact absurd rfl (other c)
  | _ => trivial

section kept
variable {cwd : File} {task : Nat} {md5 : Bytes → Digest} {w : World}

theorem session_held {r : Redis.State} {uuid : Bytes} {userid : UInt64}
    (session : Session (typedEnv cwd) w.store.redis uuid userid r) :
    SessionOf w.store.redis.keys uuid userid ∧ Expired w.store.redis.keys r.keys := by
  obtain ⟨fields,⟨k,expired,reply,same⟩,some,number⟩ := session.live
  have kept : r.keys = k := by rw [same]; exact (exec_reads k uuid []).1
  refine ⟨⟨fields,?_⟩,kept ▸ expired⟩
  simp only [exec] at reply
  split at reply
  · exact absurd (Except.ok.inj reply) some
  next fields' expires held =>
    obtain rfl := Except.ok.inj reply
    exact ⟨expires,expired.held held,some,number⟩
  · cases reply

theorem accepted_upload {userid : UInt64} {filename : Bytes} {fh : Fileheader} {w₁ : World}
    (accepted : Accepted (typedEnv cwd) w userid filename fh w₁) (wanted : fh.upload = true)
    (clean : Clean w.store.redis.keys w.conn) :
    w₁.store.redis.keys (decimal userid.toNat) = none := by
  cases accepted with
  | @mk got beyond sent name header c₁ c₂ c₃ _ s record session answer low high room named headed =>
    obtain ⟨rfl,rfl,_⟩ := record.start fun _ => not_false
    obtain ⟨rfl,rfl,_⟩ := named.start fun _ => not_false
    obtain ⟨rfl,rfl,arrives⟩ := headed.start fun _ => not_false
    obtain ⟨held,expired⟩ := session_held session
    refine expired.gone (clean.cache beyond userid held low high ?_ ?_)
    · rcases arrives with enough | closed
      · simp only [Conn.wrote,List.length_drop] at enough
        refine .inl ?_
        simp only [afterName,recordRead,sizeofFileheader] at enough ⊢
        omega
      · exact .inr closed
    · simp only [Conn.wrote,List.drop_drop] at wanted
      exact wanted

theorem suits_free_set {k : Keyspace} {key : Bytes} (free : k key = none) (path : Bytes) :
    Suits k (.sismember key path) ∧ Suits k (.sadd key path) := by
  simp [Suits,free]

theorem suits_get {got beyond : Bytes} {c : Conn} (clean : Clean w.store.redis.keys w.conn)
    (record : Received (typedEnv cwd) w.conn sizeofDatauuid got c) :
    Suits w.store.redis.keys (.hgetall (uuidOf (filled sizeofDatauuid got) beyond)) := by
  obtain ⟨rfl,_,arrives⟩ := record.start fun _ => not_false
  exact clean.session arrives beyond

theorem exists_expired {s : Store} {path : Bytes} {userid : UInt64} {out : Except Halt Bool}
    {r : Redis.State} (check : Exists (typedEnv cwd) s path userid out r) :
    Expired s.redis.keys r.keys := by
  cases check with
  | failed asked | cached asked | counted asked | tooMany asked | noResult asked =>
    obtain ⟨k,expired,_,rfl⟩ := asked
    rw [(exec_reads k (decimal userid.toNat) path).2]
    exact expired

theorem saved_expired {fh : Fileheader} {userid : UInt64} {w' : World} {out : Except Halt Bytes}
    (saved : Saved (typedEnv cwd) task md5 fh userid w out w') :
    Expired w.store.redis.keys w'.store.redis.keys := by
  cases saved with
  | unanswered check | known check | noMemory check | stored check => exact exists_expired check

theorem handled_ends {out : Except Halt Unit} {w' : World} (clean : Clean w.store.redis.keys w.conn)
    (handled : Handled (typedEnv cwd) task md5 w out w') : out ≠ .error (.redis .wrongtype) := by
  cases handled with
  | refused refused =>
    cases refused with
    | failed record asked =>
      have suits := expiring_suits (suits_get clean record) asked
      simpa using suits
    | unknown | notNumber | badLength | noRoom => simp
  | download _ _ done => cases done <;> simp
  | upload accepted wanted done =>
    have free := accepted_upload accepted wanted clean
    cases done with
    | notSaved saved =>
      cases saved with
      | noMemory => simp
      | unanswered check =>
        cases check with
        | failed asked =>
          have suits := expiring_suits (suits_free_set free _).1 asked
          simpa using suits
        | tooMany | noResult => simp
    | notAdded saved _ added =>
      have suits := expiring_suits (suits_free_set ((saved_expired saved).gone free) _).2 added
      simpa using suits
    | @added _ _ out _ _ saved _ added set =>
      have suits := expiring_suits (c := .setex _ _ _) trivial set
      cases out with
      | ok => simp [Except.mapError]
      | error e => simpa [Except.mapError] using suits

theorem wp_types (clean : Clean w.store.redis.keys w.conn) :
    Wp (Sys (typedEnv cwd) task) Suiting (process md5)
      (fun out _ => out ≠ .error (.redis .wrongtype)) w :=
  wp_process suiting_free (fun _ _ _ record => @suits_get cwd w _ _ _ clean record)
    (fun _ _ fh _ accepted wanted =>
      (suits_free_set (accepted_upload accepted wanted clean) (hashPath fh.md5)).1)
    (fun _ _ fh _ _ _ accepted wanted saved _ => (suits_free_set
      ((saved_expired saved).gone (accepted_upload accepted wanted clean)) (hashPath fh.md5)).2)
    (fun _ _ _ _ => trivial) fun _ _ handled => handled_ends clean handled

theorem types_kept (clean : Clean w.store.redis.keys w.conn) : TypesKept cwd task md5 w where
  commands _ _ _ reached := (wp_reaches reached (wp_types clean)).1
  ends _ _ run := by have ended := wp_runs run (wp_types clean); exact ended

end kept

section met
variable {cwd : File} {task : Nat} {md5 : Bytes → Digest} {w : World}

theorem can_wrongtype {c : Command} {post : Except Halt c.Reply → World → Prop}
    (bad : ¬ Suits w.store.redis.keys c) (ends : ∀ w', post (.error (.redis .wrongtype)) w') :
    Can (Sys (typedEnv cwd) task) (FileTask.redis c) post w := by
  have reply : (exec w.store.redis.keys c).1 = .error .wrongtype :=
    not_not.mp (mt (exec_ok_iff_suits _ _).mp bad)
  refine can_bind (can_ask (r := (exec w.store.redis.keys c).1)
    ⟨_,expiring_of_typed ⟨rfl,rfl⟩,rfl⟩ ?_)
  dsimp only [After]
  rw [reply]
  exact can_throw (ends _)

theorem arrives_record {c : Conn} (arrives : Arrives c (afterName c + sizeofFileheader)) :
    Arrives c sizeofDatauuid :=
  arrives.imp_left (Nat.le_trans (by simp only [afterName]; omega))

theorem arrives_name {c : Conn} (low : 0 ≤ namelenOf (recordRead c)) (high : namelenOf (recordRead c) + 1 < 2 ^ 31)
    (arrives : Arrives c (afterName c + sizeofFileheader)) :
    (toInt (namelenOf (recordRead c))).toNat ≤ (c.input.drop sizeofDatauuid).length ∨ c.ended = true := by
  apply arrives.imp_left
  intro enough
  rw [toInt_eq_self low (by omega),List.length_drop]
  unfold afterName at enough
  omega

theorem arrives_header {c : Conn} (low : 0 ≤ namelenOf (recordRead c))
    (high : namelenOf (recordRead c) + 1 < 2 ^ 31) (arrives : Arrives c (afterName c + sizeofFileheader)) :
    sizeofFileheader ≤ ((c.input.drop sizeofDatauuid).drop (toInt (namelenOf (recordRead c))).toNat).length ∨
      c.ended = true := by
  apply arrives.imp_left
  intro enough
  rw [toInt_eq_self low (by omega),List.length_drop,List.length_drop]
  unfold afterName at enough
  omega

theorem header_read (c : Conn) : Fileheader.read (overlay (zeros sizeofFileheader) 0
    (((c.input.drop sizeofDatauuid).drop (namelenOf (recordRead c)).toNat).take sizeofFileheader)) =
      headerRead c := by
  rw [List.drop_drop]
  rfl

theorem can_meet_key (arrives : Arrives w.conn sizeofDatauuid) {beyond : Bytes}
    (bad : ¬ Suits w.store.redis.keys (.hgetall (uuidOf (recordRead w.conn) beyond))) :
    Can (Sys (typedEnv cwd) task) (process md5) (fun out _ => out = .error (.redis .wrongtype)) w := by
  refine can_bind (can_receive _ arrives ?_)
  refine can_bind (can_ask (r := beyond) rfl ?_)
  exact can_bind (can_bind (can_wrongtype bad fun _ => rfl))

theorem can_meet_cache {beyond : Bytes} {userid : UInt64}
    (session : SessionOf w.store.redis.keys (uuidOf (recordRead w.conn) beyond) userid)
    (low : 0 ≤ namelenOf (recordRead w.conn)) (high : namelenOf (recordRead w.conn) + 1 < 2 ^ 31)
    (arrives : Arrives w.conn (afterName w.conn + sizeofFileheader))
    (wanted : (headerRead w.conn).upload = true)
    (bad : ∀ path, ¬ Suits w.store.redis.keys (.sismember (decimal userid.toNat) path)) :
    Can (Sys (typedEnv cwd) task) (process md5) (fun out _ => out = .error (.redis .wrongtype)) w := by
  refine can_bind (can_receive _ (arrives_record arrives) ?_)
  refine can_bind (can_ask (r := beyond) rfl ?_)
  refine can_bind (can_validate (fun _ _ _ _ => expiring_of_typed) session (can_bind (can_send _ _ ?_)))
  dsimp only [After]
  rw [if_pos rfl,if_pos ⟨low,high⟩]
  refine can_bind (can_ask (r := true) ⟨rfl,.inl ⟨rfl,trivial⟩⟩ ?_)
  dsimp only [After]
  rw [if_pos rfl]
  refine can_bind (can_receive _ (arrives_name low high arrives) ?_)
  refine can_bind (can_receive _ (arrives_header low high arrives) ?_)
  have header : Fileheader.read (overlay (zeros sizeofFileheader) 0 (((w.conn.input.drop
      sizeofDatauuid).drop (toInt (namelenOf (recordRead w.conn))).toNat).take sizeofFileheader)) =
        headerRead w.conn := by
    rw [toInt_eq_self low (by omega)]
    exact header_read _
  dsimp only [After]
  split_ifs with flag
  · exact can_bind (can_bind (can_bind (can_wrongtype (bad _) fun _ => rfl)))
  · exact absurd ((congrArg Fileheader.upload header).trans wanted) flag

end met

/-- Between two calls no key holds a set: the string that follows `sadd` replaces it. -/
def NoSets (k : Keyspace) : Prop := ∀ key e members, k key = some e → e.value ≠ .set members

theorem noSets_expired {k k' : Keyspace} (none : NoSets k) (expired : Expired k k') : NoSets k' :=
  fun key e members held => none key e members (expired.held held)

theorem noSets_get {s s' : Redis.State} {key : Bytes}
    {r : Except RedisError (Command.hgetall key).Reply} (none : NoSets s.keys)
    (asked : expiring s (.hgetall key) r s') : NoSets s'.keys := by
  obtain ⟨k,expired,_,rfl⟩ := asked
  rw [(exec_reads k key []).1]
  exact noSets_expired none expired

theorem sadd_other {s s' : Redis.State} {key member other : Bytes} {e : Entry}
    {r : Except RedisError (Command.sadd key member).Reply} (asked : expiring s (.sadd key member) r s')
    (held : s'.keys other = some e) (why : other ≠ key ∨ ∃ error, r = .error error) :
    s.keys other = some e := by
  obtain ⟨k,expired,rfl,rfl⟩ := asked
  apply expired.held
  simp only [exec] at held why
  split at held <;> rename_i found <;> simp only [found] at why
  · simpa [Function.update_of_ne (why.resolve_right (by simp))] using held
  · simpa [Function.update_of_ne (why.resolve_right (by simp))] using held
  · exact held

section run
variable {cwd : File} {task : Nat} {md5 : Bytes → Digest} {w w' : World} {fh : Fileheader}

theorem noSets_uploaded {filename : Bytes} {userid : UInt64} {out : Except Halt Unit}
    (none : NoSets w.store.redis.keys)
    (done : Uploaded (typedEnv cwd) task md5 fh filename userid w out w') :
    NoSets w'.store.redis.keys := by
  cases done with
  | notSaved saved => exact noSets_expired none (saved_expired saved)
  | notAdded saved _ added =>
    exact fun key e members held => noSets_expired none (saved_expired saved) key e members
      (sadd_other added held (.inr ⟨_,rfl⟩))
  | added saved _ added set =>
    obtain ⟨k,expired,_,rfl⟩ := set
    intro key e members held
    simp only [exec,Function.update_apply] at held
    split_ifs at held with own
    · obtain rfl := Option.some.inj held
      simp
    · exact noSets_expired none (saved_expired saved) key e members
        (sadd_other added (expired.held held) (.inl own))

theorem noSets_handled {out : Except Halt Unit} (none : NoSets w.store.redis.keys)
    (handled : Handled (typedEnv cwd) task md5 w out w') : NoSets w'.store.redis.keys := by
  have accepted {userid : UInt64} {filename : Bytes} {fh : Fileheader} {w₁ : World}
      (accepted : Accepted (typedEnv cwd) w userid filename fh w₁) : NoSets w₁.store.redis.keys := by
    cases accepted with
    | mk _ session => exact noSets_expired none (session_held session).2
  cases handled with
  | refused refused =>
    cases refused with
    | failed _ asked | unknown _ asked | notNumber _ asked => exact noSets_get none asked
    | badLength _ session | noRoom _ session => exact noSets_expired none (session_held session).2
  | upload taken _ done => exact noSets_uploaded (accepted taken) done
  | download taken _ done =>
    cases done with
    | noResult | null => exact accepted taken
    | files _ _ sent => rw [(sentFiles_keeps sent).1]; exact accepted taken

end run

/-- Calls of `process` one after another, from a keyspace of sessions: what each of them
started from, and the store that is reached. -/
inductive Reached (cwd : File) (md5 : Bytes → Digest) : List World → Store → Prop
  | start {s : Store} (sessions : ∀ key e, s.redis.keys key = some e → ∃ fields, e.value = .hash fields) :
      Reached cwd md5 [] s
  | next {past : List World} {s s' : Store} {task : Nat} {conn conn' : Conn} {out : Except Halt Unit}
      (earlier : Reached cwd md5 past s)
      (run : Runs (Sys (typedEnv cwd) task) (process md5) ⟨conn,s⟩ out ⟨conn',s'⟩) :
      Reached cwd md5 (past ++ [⟨conn,s⟩]) s'

theorem reached_noSets {cwd : File} {md5 : Bytes → Digest} {past : List World} {s : Store}
    (reached : Reached cwd md5 past s) :
    NoSets s.redis.keys ∧ ∀ w ∈ past, NoSets w.store.redis.keys := by
  induction reached with
  | start sessions =>
    refine ⟨fun key e members held => ?_,nofun⟩
    obtain ⟨fields,same⟩ := sessions key e held
    simp [same]
  | next earlier run ih =>
    refine ⟨noSets_handled ih.1 (process_cases run),?_⟩
    simp only [List.forall_mem_append,List.forall_mem_singleton]
    exact ⟨ih.2,ih.1⟩

theorem clean_of_kept {cwd : File} {task : Nat} {md5 : Bytes → Digest} {w : World}
    (none : NoSets w.store.redis.keys) (kept : TypesKept cwd task md5 w) :
    Clean w.store.redis.keys w.conn := by
  have never (can : Can (Sys (typedEnv cwd) task) (process md5)
      (fun out _ => out = .error (.redis .wrongtype)) w) : False := by
    obtain ⟨out,w',run,ended⟩ := can
    exact kept.ends out w' run ended
  constructor
  · intro arrives beyond
    by_contra bad
    exact never (can_meet_key arrives bad)
  · intro beyond userid session low high arrives wanted
    by_contra present
    obtain ⟨e,held⟩ := Option.ne_none_iff_exists'.mp present
    apply never
    apply can_meet_cache session low high arrives wanted
    intro path suits
    obtain ⟨members,set⟩ := suits e held
    exact none _ e members held set

/-- In a sequence of calls, of which the last may still be under way, all commands meet keys
of their types exactly when every call starts clean. -/
theorem types_kept_iff {cwd : File} {md5 : Bytes → Digest} {past : List World} {s : Store}
    (reached : Reached cwd md5 past s) (conn : Conn) (task : Nat) :
    (∀ w ∈ past ++ [⟨conn,s⟩], TypesKept cwd task md5 w) ↔
      ∀ w ∈ past ++ [⟨conn,s⟩], Clean w.store.redis.keys w.conn := by
  have none : ∀ w ∈ past ++ [⟨conn,s⟩], NoSets w.store.redis.keys := by
    obtain ⟨last,earlier⟩ := reached_noSets reached
    simp only [List.forall_mem_append,List.forall_mem_singleton]
    exact ⟨earlier,last⟩
  exact ⟨fun kept w member => clean_of_kept (none w member) (kept w member),
    fun clean w member => types_kept (clean w member)⟩

theorem sample_sessions : ∀ key e, sampleStart.redis.keys key = some e → ∃ fields, e.value = .hash fields := by
  intro key e held
  simp only [sampleStart,sampleKeys] at held
  split_ifs at held <;> exact ⟨_,by rw [← Option.some.inj held]⟩

theorem sample_types_kept_iff :
    (∀ w ∈ [World.mk (sampleFirst.conn []) sampleStart], TypesKept [] 0 sampleMd5 w) ↔
      ∀ w ∈ [World.mk (sampleFirst.conn []) sampleStart], Clean w.store.redis.keys w.conn :=
  types_kept_iff (.start sample_sessions) (sampleFirst.conn []) 0

/-- The same user uploads twice: the second time the key of the cache is a string. -/
theorem second_upload_wrongtype : ¬ ∀ (cwd : File) (md5 : Bytes → Digest) (past : List World) (s : Store),
    Reached cwd md5 past s → ∀ conn task, ∀ w ∈ past ++ [⟨conn,s⟩], TypesKept cwd task md5 w := by
  intro claim
  have allows (s : Redis.State) (c : Command) (r : Except RedisError c.Reply) (s' : Redis.State)
      (_ : s.Sound) (executed : typed s c r s') : (typedEnv []).redis s c r s' :=
    expiring_of_typed executed
  have stored : handle sampleMd5 [] 0 sampleFirst sampleStart = some sampleStored :=
    (Option.some_get _).symm
  obtain ⟨⟨out,conn,s⟩,ran,same⟩ := Option.map_eq_some_iff.mp stored
  obtain rfl : s = sampleStored := same
  have reached : Reached [] sampleMd5 [⟨sampleFirst.conn [],sampleStart⟩] sampleStored :=
    .next (.start sample_sessions) (runs_of_respond rfl allows sampleStart_sound ran).1
  have answer : ((respond [] 0).run 100 (process sampleMd5) ⟨sampleFirst.conn [],sampleStored⟩).map
      (·.1) = some (.error (.redis .wrongtype)) := by decide +kernel
  obtain ⟨⟨out,w'⟩,ran,ended⟩ := Option.map_eq_some_iff.mp answer
  have sound : (World.mk (sampleFirst.conn []) sampleStored).store.redis.Sound := sampleStored_handled.2
  have second : Runs (Sys (typedEnv []) 0) (process sampleMd5) ⟨sampleFirst.conn [],sampleStored⟩
      out w' := (runs_of_respond rfl allows sound ran).1
  exact (claim [] sampleMd5 _ _ reached (sampleFirst.conn []) 0 ⟨sampleFirst.conn [],sampleStored⟩
    (by simp)).ends out w' second ended

end FilediskServer.KeyTypes
