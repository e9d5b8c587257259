import FilediskServer.FileServer
import FilediskServer.FileTaskCalls
import FilediskServer.KeyTypes

/-! What a call of `process` does to the world and for whom, for every byte stream and at
every point of a run. The run keeps a list of its calls with their answers. -/
namespace FilediskServer.SessionEffects
open Interaction Bytes CusInfo Redis Filetree Disk Calls SocketIO FileTask FileTaskRuns Downloads KeyTypes
open FileServer (bytesRead)

/-- Redis answers by type, keys may have expired, and any command may fail. -/
def faulty : Semantics := fun s c r s' => expiring s c r s' ∨ ∃ e, r = .error e

def faultyEnv (cwd : File) : Env := ⟨faulty,cwd,.ample,fun _ => True,True,True,True,True,True⟩

/-- The call inserts a row, writes a key, creates or writes a file, or sends anything but
a flag. -/
def Effect : Call → Prop
  | .query (.insert ..) => True
  | .redis (.hmset ..) | .redis (.sadd ..) | .redis (.setex ..) => True
  | .openFile _ | .writeFile .. => True
  | .write (.buf b) _ => ∀ flag, b ≠ flagRecord flag
  | .write (.mapped ..) _ => True
  | _ => False

/-- The row or the key that the call writes, if any, carries the number. -/
def Carries (userid : UInt64) : Call → Prop
  | .query (.insert owner ..) => owner = userid
  | .redis (.hmset key _) | .redis (.sadd key _) | .redis (.setex key _ _) => key = decimal userid.toNat
  | _ => True

abbrev Trace := List (Event signature)

def received (trace : Trace) : Bytes := trace.flatMap fun event => bytesRead (some event)

/-- The session of the key in the record that was read was asked for, and answered by `r`. -/
def Asked (trace : Trace) (uuid : Bytes) (r : Except RedisError (List (Bytes × Bytes))) : Prop :=
  ∃ before after beyond, trace = before ++ ⟨.redis (.hgetall uuid),r⟩ :: after ∧
    (received before).length ≤ sizeofDatauuid ∧
    uuid = uuidOf (filled sizeofDatauuid (received before)) beyond

/-- All effects so far are on behalf of the session's user. -/
def OnBehalf (w : World) (trace : Trace) : Prop :=
  ∃ uuid fields userid, Asked trace uuid (.ok fields) ∧ SessionOf w.store.redis.keys uuid userid ∧
    ∀ e ∈ trace, Effect e.1 → Carries userid e.1

/-- Nothing beyond the record was read and nothing but the refusal was sent. -/
structure Refusal (w : World) (trace : Trace) (v : World) : Prop where
  quiet : ∀ e ∈ trace, ¬ Effect e.1
  unread : (received trace).length ≤ sizeofDatauuid
  sent : v.conn.output <+: w.conn.output ++ userValidation false

structure Standing (w : World) (x : Trace × World) : Prop where
  behalf : (∃ e ∈ x.1, Effect e.1) → OnBehalf w x.1
  refused : ∀ uuid, ⟨.redis (.hgetall uuid),.ok []⟩ ∈ x.1 → Asked x.1 uuid (.ok []) ∧ Refusal w x.1 x.2

theorem asked_later {trace : Trace} {uuid : Bytes} {r : Except RedisError (List (Bytes × Bytes))}
    (asked : Asked trace uuid r) (e : Event signature) : Asked (trace ++ [e]) uuid r := by
  obtain ⟨before,after,beyond,rfl,fits,same⟩ := asked
  exact ⟨before,after ++ [e],beyond,by simp,fits,same⟩

theorem input_read {env : Env} {task : Nat} {v v' : World} {c : Call} {r : c.Res}
    (answered : Sys env task v c r v') : v.conn.input = bytesRead (some ⟨c,r⟩) ++ v'.conn.input := by
  cases c with
  | read left =>
    cases r with
    | data b => obtain ⟨_,_,rest,input,rfl⟩ := answered; exact input
    | eof => obtain ⟨_,_,rfl⟩ := answered; rfl
    | eintr => obtain rfl := answered; rfl
    | failed => obtain ⟨_,rfl⟩ := answered; rfl
  | write | redis | query | openFile | writeFile | mmap | munmap | close | alloc | array | uninit | beyond =>
    cases sys_changes answered <;> rfl

theorem received_snoc (trace : Trace) (e : Event signature) :
    received (trace ++ [e]) = received trace ++ bytesRead (some e) := by simp [received]

theorem received_kept {env : Env} {task : Nat} {w : World} (x : Trace × World) (c : Call) (r : c.Res)
    (x' : Trace × World) (before : w.conn.input = received x.1 ++ x.2.conn.input)
    (answered : Traced (Sys env task) x c r x') : w.conn.input = received x'.1 ++ x'.2.conn.input := by
  rw [answered.1,received_snoc,before,input_read answered.2,List.append_assoc]

/-- What is permitted leaves every effect on behalf of the session's user. -/
def Keeps (cwd : File) (task : Nat) (w : World) (x : Trace × World) (c : Call) : Prop :=
  ∀ r x', Traced (Sys (faultyEnv cwd) task) x c r x' → Standing w x'

section phases
variable {cwd : File} {task : Nat} {w : World}

/-- Until the session is asked for the record is read and nothing else is done. -/
def Quiet (c : Call) : Prop := c = .beyond ∨ ∃ n, c = .read n

theorem standing_quiet {x : Trace × World} (quiet : ∀ e ∈ x.1, Quiet e.1) : Standing w x where
  behalf := by
    rintro ⟨e,inside,effect⟩
    rcases quiet e inside with read | ⟨n,read⟩ <;> (rw [read] at effect; exact effect.elim)
  refused uuid inside := by rcases quiet _ inside with read | ⟨n,read⟩ <;> cases read

theorem quiet_kept {trace : Trace} (quiet : ∀ e ∈ trace, Quiet e.1) {e : Event signature} (next : Quiet e.1) :
    ∀ e' ∈ trace ++ [e], Quiet e'.1 := by
  intro e' inside
  rcases List.mem_append.mp inside with old | new
  · exact quiet e' old
  · rw [List.mem_singleton.mp new]
    exact next

theorem keeps_quiet {x : Trace × World} {c : Call} (quiet : ∀ e ∈ x.1, Quiet e.1) (next : Quiet c) :
    Keeps cwd task w x c := by
  intro r x' answered
  apply standing_quiet
  rw [answered.1]
  exact quiet_kept quiet next

/-- The session was found, and only its user has been acted for. -/
structure Accepted (w : World) (uuid : Bytes) (userid : UInt64) (x : Trace × World) : Prop where
  asked : ∃ fields, Asked x.1 uuid (.ok fields)
  session : SessionOf w.store.redis.keys uuid userid
  carried : ∀ e ∈ x.1, Effect e.1 → Carries userid e.1
  answered : ∀ uuid, ⟨.redis (.hgetall uuid),.ok []⟩ ∉ x.1

def Serves (userid : UInt64) (c : Call) : Prop := Carries userid c ∧ ∀ uuid, c ≠ .redis (.hgetall uuid)

theorem Accepted.standing {uuid : Bytes} {userid : UInt64} {x : Trace × World}
    (accepted : Accepted w uuid userid x) : Standing w x where
  behalf _ := by
    obtain ⟨fields,asked⟩ := accepted.asked
    exact ⟨uuid,fields,userid,asked,accepted.session,accepted.carried⟩
  refused uuid inside := absurd inside (accepted.answered uuid)

theorem Accepted.kept {uuid : Bytes} {userid : UInt64} {x x' : Trace × World} {c : Call} {r : c.Res}
    (accepted : Accepted w uuid userid x) (serves : Serves userid c)
    (answer : Traced (Sys (faultyEnv cwd) task) x c r x') : Accepted w uuid userid x' := by
  obtain ⟨fields,asked⟩ := accepted.asked
  refine ⟨⟨fields,?_⟩,accepted.session,?_,?_⟩ <;> rw [answer.1]
  · exact asked_later asked _
  · intro e inside effect
    rcases List.mem_append.mp inside with old | new
    · exact accepted.carried e old effect
    · rw [List.mem_singleton.mp new]
      exact serves.1
  · intro key inside
    rcases List.mem_append.mp inside with old | new
    · exact accepted.answered key old
    · have same := congrArg Sigma.fst (List.mem_singleton.mp new)
      exact serves.2 key same.symm

theorem wp_serves {α : Type} {uuid : Bytes} {userid : UInt64} {x : Trace × World} {p : Job α}
    (accepted : Accepted w uuid userid x) (serves : Only (Serves userid) p) :
    Wp (Traced (Sys (faultyEnv cwd) task)) (Keeps cwd task w) p (fun _ _ => True) x :=
  wp_only serves accepted (fun _ _ _ _ inside is answer => inside.kept is answer)
    (fun _ _ inside is _ _ answer => (inside.kept is answer).standing) fun _ _ _ => trivial

section serves
variable {userid : UInt64} {md5 : Bytes → Digest} {fh : Fileheader} {filename : Bytes}

theorem serves_read (n : Nat) : Serves userid (.read n) := ⟨trivial,fun _ same => by cases same⟩

theorem serves_write (source : Source) (n : Nat) : Serves userid (.write source n) :=
  ⟨trivial,fun _ same => by cases same⟩

theorem only_savefile : Only (Serves userid) (savefile md5 fh userid) := by
  apply only_bind (only_isfileexits ⟨trivial,nofun⟩ ⟨trivial,nofun⟩)
  intro exist
  apply only_bind (only_send serves_write _ _)
  intro _
  split_ifs
  · trivial
  · trivial
  · apply only_bind (only_ask ⟨trivial,nofun⟩)
    intro memory
    cases memory with
    | none => trivial
    | some fresh =>
      apply only_bind (only_receiveChecked serves_read serves_write _)
      intro b
      apply only_bind (only_ask ⟨trivial,nofun⟩)
      intro sfd
      apply only_bind (only_ask ⟨trivial,nofun⟩)
      intro _
      apply only_bind (only_ask ⟨trivial,nofun⟩)
      exact fun _ => trivial

theorem only_upload : Only (Serves userid) (upload md5 fh filename userid) := by
  apply only_bind only_savefile
  intro path
  apply only_bind (only_ask ⟨rfl,nofun⟩)
  intro _
  apply only_bind (only_redis ⟨rfl,nofun⟩)
  exact fun _ => only_redis ⟨rfl,nofun⟩

theorem only_downloadfile : Only (Serves userid) (downloadfile fh filename userid) := by
  apply only_bind (only_getfilelist ⟨trivial,nofun⟩)
  exact only_sendFiles ⟨trivial,nofun⟩ (fun _ _ => ⟨trivial,nofun⟩) (fun _ => ⟨trivial,nofun⟩)
    serves_write (fun _ => ⟨trivial,nofun⟩) (fun _ => ⟨trivial,nofun⟩)

end serves

/-- Nothing but the record was read when the session was asked for. -/
structure Opened (w : World) (uuid : Bytes) (x : Trace × World) : Prop where
  quiet : ∀ e ∈ x.1, Quiet e.1
  fits : (received x.1).length ≤ sizeofDatauuid
  key : ∃ beyond, uuid = uuidOf (filled sizeofDatauuid (received x.1)) beyond
  output : x.2.conn.output = w.conn.output
  store : x.2.store = w.store

section opened
variable {uuid : Bytes} {x x' : Trace × World} {r : Except RedisError (List (Bytes × Bytes))}

theorem Opened.asked (opened : Opened w uuid x) :
    Asked (x.1 ++ [⟨.redis (.hgetall uuid),r⟩]) uuid r := by
  obtain ⟨beyond,same⟩ := opened.key
  exact ⟨x.1,[],beyond,rfl,opened.fits,same⟩

theorem Opened.harmless (opened : Opened w uuid x) :
    ∀ e ∈ x.1 ++ [⟨.redis (.hgetall uuid),r⟩], ¬ Effect e.1 := by
  intro e inside effect
  rcases List.mem_append.mp inside with old | new
  · rcases opened.quiet e old with read | ⟨n,read⟩ <;> (rw [read] at effect; exact effect)
  · rw [List.mem_singleton.mp new] at effect
    exact effect

theorem Opened.only (opened : Opened w uuid x) {key : Bytes}
    {r' : Except RedisError (List (Bytes × Bytes))}
    (inside : ⟨.redis (.hgetall key),r'⟩ ∈ x.1 ++ [⟨.redis (.hgetall uuid),r⟩]) : key = uuid ∧ r' = r := by
  rcases List.mem_append.mp inside with old | new
  · rcases opened.quiet _ old with read | ⟨n,read⟩ <;> cases read
  · cases List.mem_singleton.mp new
    exact ⟨rfl,rfl⟩

theorem Opened.received_answered (opened : Opened w uuid x) :
    (received (x.1 ++ [⟨.redis (.hgetall uuid),r⟩])).length ≤ sizeofDatauuid := by
  rw [received_snoc]
  simpa [bytesRead] using opened.fits

theorem Opened.keeps (opened : Opened w uuid x) : Keeps cwd task w x (.redis (.hgetall uuid)) := by
  intro r x' answered
  obtain ⟨note,_,_,same⟩ := answered
  refine ⟨?_,?_⟩ <;> rw [note]
  · rintro ⟨e,inside,effect⟩
    exact absurd effect (opened.harmless e inside)
  · intro key inside
    obtain ⟨rfl,rfl⟩ := opened.only inside
    refine ⟨opened.asked,opened.harmless,opened.received_answered,?_⟩
    rw [same,← opened.output]
    exact List.prefix_append _ _

end opened

/-- The session was found empty. -/
structure Refused (uuid : Bytes) (trace : Trace) : Prop where
  asked : Asked trace uuid (.ok [])
  only : ∀ key, ⟨.redis (.hgetall key),.ok []⟩ ∈ trace → key = uuid
  quiet : ∀ e ∈ trace, ¬ Effect e.1
  unread : (received trace).length ≤ sizeofDatauuid

theorem Refused.standing {uuid : Bytes} {x : Trace × World} (refused : Refused uuid x.1)
    (sent : x.2.conn.output <+: w.conn.output ++ userValidation false) : Standing w x where
  behalf := by
    rintro ⟨e,inside,effect⟩
    exact absurd effect (refused.quiet e inside)
  refused key inside := by
    obtain rfl := refused.only key inside
    exact ⟨refused.asked,refused.quiet,refused.unread,sent⟩

theorem Refused.kept {uuid : Bytes} {trace : Trace} (refused : Refused uuid trace)
    (r : Call.Res (.write (.buf (userValidation false)) 1)) :
    Refused uuid (trace ++ [⟨.write (.buf (userValidation false)) 1,r⟩]) := by
  refine ⟨asked_later refused.asked _,?_,?_,?_⟩
  · intro key inside
    rcases List.mem_append.mp inside with old | new
    · exact refused.only key old
    · cases List.mem_singleton.mp new
  · intro e inside effect
    rcases List.mem_append.mp inside with old | new
    · exact refused.quiet e old effect
    · rw [List.mem_singleton.mp new] at effect
      exact effect false rfl
  · rw [received_snoc]
    simpa [bytesRead] using refused.unread

theorem write_buf {env : Env} {v v' : World} {b : Bytes} {n : Nat} {r : WriteResult}
    (answered : Sys env task v (.write (.buf b) n) r v') :
    ∃ part, part <+: b ∧ v'.conn.output = v.conn.output ++ part := by
  cases r with
  | count n =>
    obtain ⟨_,_,_,rfl⟩ := answered
    exact ⟨_,List.take_prefix _ _,rfl⟩
  | eintr =>
    obtain rfl := answered
    exact ⟨[],List.nil_prefix,by simp⟩
  | failed =>
    obtain ⟨_,rfl⟩ := answered
    exact ⟨[],List.nil_prefix,by simp⟩

theorem wp_refused {uuid : Bytes} {trace : Trace} {v : World} (refused : Refused uuid trace)
    (unsent : v.conn.output = w.conn.output) :
    Wp (Traced (Sys (faultyEnv cwd) task)) (Keeps cwd task w) (userValidate false) (fun _ _ => True) (trace,v) := by
  have sends : Wp (Sys (faultyEnv cwd) task) (fun u c => u = v ∧ c = .write (.buf (userValidation false)) 1)
      (userValidate false) (fun _ _ => True) v := by
    apply wp_send _ _ (fun m n whole left => ?_) (fun _ _ => trivial)
    obtain ⟨rfl,rfl⟩ : m = 0 ∧ n = 1 := by
      have one : (toInt 1).toNat = 1 := rfl
      omega
    rw [Source.advance_zero,List.take_zero,List.append_nil]
    exact ⟨rfl,rfl⟩
  have tracked := @wp_tracked _ _ _ _ _ _ (fun trace event => trace ++ [event]) _ (Refused uuid) _ _ trace v
    refused (fun trace u c r refused is => ?_) sends
  · apply wp_mono (fun _ _ _ => trivial)
    apply wp_allow _ tracked
    rintro ⟨trace,u⟩ c ⟨⟨same,rfl⟩,refused⟩ r x' ⟨note,answered⟩
    have after := refused.kept r
    rw [show trace ++ [⟨.write (.buf (userValidation false)) 1,r⟩] = x'.1 from note.symm] at after
    obtain ⟨part,upTo,output⟩ := write_buf answered
    apply after.standing
    rw [output,same,unsent]
    exact (List.prefix_append_right_inj _).mpr upTo
  · obtain ⟨_,rfl⟩ := is
    exact refused.kept r

theorem wp_validate {uuid : Bytes} {x : Trace × World}
    {post : Except Halt (Bool × UInt64) → Trace × World → Prop} (opened : Opened w uuid x)
    (thrown : ∀ e x', post (.error e) x')
    (unknown : ∀ trace v, Refused uuid trace → v.conn.output = w.conn.output → post (.ok (false,-1)) (trace,v))
    (valid : ∀ userid x', Accepted w uuid userid x' → post (.ok (true,userid)) x') :
    Wp (Traced (Sys (faultyEnv cwd) task)) (Keeps cwd task w) (validate uuid) post x := by
  refine wp_bind (wp_bind ⟨opened.keeps,?_⟩)
  rintro r ⟨trace,v⟩ ⟨note,s,asked,same⟩
  dsimp only at note same
  subst note same
  match r with
  | .error e => exact thrown _ _
  | .ok [] =>
    exact unknown _ _ ⟨opened.asked,fun key inside => (opened.only inside).1,opened.harmless,
      opened.received_answered⟩ opened.output
  | .ok (field :: fields) =>
    have kept : expiring x.2.store.redis (.hgetall uuid) (.ok (field :: fields)) s :=
      asked.resolve_right (by rintro ⟨e,failed⟩; cases failed)
    simp only [After,Prog.pure_eq,wp_ret]
    rw [if_pos (by simp)]
    split
    next userid number =>
      apply valid
      have session : Session (typedEnv cwd) x.2.store.redis uuid userid s := ⟨_,kept,by simp,number⟩
      refine ⟨⟨_,opened.asked⟩,opened.store ▸ (session_held session).1,?_,?_⟩
      · exact fun e inside effect => absurd effect (opened.harmless e inside)
      · intro key inside
        cases (opened.only inside).2
    next => exact thrown _ _

end phases

theorem wp_process {cwd : File} {task : Nat} {md5 : Bytes → Digest} {w : World} :
    Wp (Traced (Sys (faultyEnv cwd) task)) (Keeps cwd task w) (process md5) (fun _ _ => True) ([],w) := by
  have reads : Wp (Sys (faultyEnv cwd) task) (fun _ c => Quiet c) (receive (zeros sizeofDatauuid) sizeofDatauuid)
      (fun out v => ∃ got, out = .ok (filled sizeofDatauuid got) ∧ v.store = w.store ∧
        Received (faultyEnv cwd) w.conn sizeofDatauuid got v.conn) w :=
    wp_receive _ _ (fun _ n => .inr ⟨n,rfl⟩) fun got c record => ⟨got,rfl,rfl,record⟩
  have tracked := @wp_tracked _ _ _ _ _ _ (fun trace event => trace ++ [event]) _
    (fun trace => ∀ e ∈ trace, Quiet e.1) _ _ [] w nofun (fun _ _ c r quiet is => quiet_kept (e := ⟨c,r⟩) quiet is) reads
  have along := wp_kept (K := fun x : Trace × World => w.conn.input = received x.1 ++ x.2.conn.input)
    received_kept rfl tracked
  apply wp_bind
  apply wp_mono _ (wp_allow (fun x c is => keeps_quiet is.2 is.1) along)
  rintro _ ⟨trace,v⟩ ⟨⟨⟨got,rfl,store,record⟩,quiet⟩,input⟩
  obtain rfl : got = received trace := List.append_cancel_right (record.taken.symm.trans input)
  refine wp_bind ⟨keeps_quiet quiet (.inl rfl),?_⟩
  rintro beyond ⟨_,v'⟩ ⟨note,answer⟩
  dsimp only at note quiet store record
  obtain rfl : v' = v := answer
  subst note
  have same : received (trace ++ [⟨.beyond,beyond⟩]) = received trace := by
    rw [received_snoc]
    simp [bytesRead]
  have opened : Opened w (uuidOf (filled sizeofDatauuid (received trace)) beyond)
      (trace ++ [⟨.beyond,beyond⟩],v') :=
    ⟨quiet_kept (e := ⟨.beyond,beyond⟩) quiet (.inl rfl),same ▸ record.bound,⟨beyond,by rw [same]⟩,
      record.output,store⟩
  refine wp_bind (wp_validate opened (fun _ _ => trivial) ?_ ?_)
  · intro trace v refused unsent
    apply wp_bind
    apply wp_mono _ (wp_refused refused unsent)
    intro out x _
    cases out with
    | ok _ => trivial
    | error _ => trivial
  · intro userid x accepted
    apply wp_serves accepted
    apply only_bind (only_send serves_write _ _)
    intro _
    simp only [if_true]
    split_ifs
    · apply only_bind (only_ask (c := .array _) ⟨trivial,fun _ same => by cases same⟩)
      intro room
      split_ifs
      · apply only_bind (only_receive serves_read _ _)
        intro name
        apply only_bind (only_receive serves_read _ _)
        intro header
        split_ifs
        · exact only_upload
        · exact only_downloadfile
      · trivial
    · trivial

/-- At every point of a run the effects so far are on behalf of the session's user, and a
session found empty is refused. -/
theorem effects_on_behalf {cwd : File} {task : Nat} {md5 : Bytes → Digest} {w w' : World} {trace : Trace}
    {p' : Job Unit} (reached : Reaches (Traced (Sys (faultyEnv cwd) task)) (process md5) ([],w) p' (trace,w')) :
    w.conn.input = received trace ++ w'.conn.input ∧
    ((∃ e ∈ trace, Effect e.1) → OnBehalf w trace) ∧
    ∀ uuid, ⟨.redis (.hgetall uuid),.ok []⟩ ∈ trace → Asked trace uuid (.ok []) ∧ Refusal w trace w' := by
  have input : w.conn.input = received trace ++ w'.conn.input :=
    reaches_keeps (K := fun x : Trace × World => w.conn.input = received x.1 ++ x.2.conn.input)
      (fun x c r x' before _ => received_kept x c r x' before) rfl (wp_true (process md5)) reached
  have standing : Standing w (trace,w') :=
    reaches_keeps (fun _ _ r x' _ keeps answered => keeps r x' answered) (standing_quiet (by simp)) wp_process reached
  exact ⟨input,standing.behalf,standing.refused⟩

section sample
open UploadHistory

def inserts : Event signature → Bool
  | ⟨.query (.insert ..),_⟩ => true
  | _ => false

theorem effect_of_inserts {e : Event signature} (inserted : inserts e = true) : Effect e.1 := by
  unfold inserts at inserted
  split at inserted
  · trivial
  · cases inserted

theorem sample_on_behalf : ∃ trace w', Reaches (Traced (Sys (faultyEnv []) 0)) (process sampleMd5)
    ([],⟨sampleFirst.conn [],sampleStart⟩) (.ret ()) (trace,w') ∧
    OnBehalf ⟨sampleFirst.conn [],sampleStart⟩ trace := by
  have ran : ((respond [] 0).tracing.run 100 (process sampleMd5) ([],⟨sampleFirst.conn [],sampleStart⟩)).any
      (fun x => x.1 = .ok () ∧ x.2.1.any inserts) = true := by decide +kernel
  obtain ⟨⟨out,trace,w'⟩,finished,done⟩ := (Option.any_eq_true _ _).mp ran
  obtain ⟨rfl,inserted⟩ := of_decide_eq_true done
  have within : (respond [] 0).Within (Sys (faultyEnv []) 0) := fun w c r w' answered =>
    sys_of_calm (fun _ _ _ executed => .inl (expiring_of_typed executed)) (respond_within [] 0 w c r w' answered)
  have reached := reaches_of_runs
    (Responder.run_sound (Responder.tracing_within within) 100 _ _ _ _ finished)
  obtain ⟨e,inside,insert⟩ := List.any_eq_true.mp inserted
  exact ⟨trace,w',reached,(effects_on_behalf reached).2.1 ⟨e,inside,effect_of_inserts insert⟩⟩

end sample

end FilediskServer.SessionEffects
