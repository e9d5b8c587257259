import FilediskServer.Library.Total
import FilediskServer.Downloads

/-! One upload from end to end on a server on which nothing goes wrong: however the stream
is cut into reads and the replies into writes, and however often signals interrupt them. -/
namespace FilediskServer.UploadProtocol
open Interaction Bytes CusInfo Redis Filetree Disk Calls SocketIO FileTask FileTaskRuns UploadHistory Downloads

def Interrupted : Event signature → Prop
  | ⟨.read _,.eintr⟩ | ⟨.write ..,.eintr⟩ => True
  | _ => False

/-- A server within its limits, with the number of signals that may still interrupt a call. -/
abbrev Interruptible (k : Kernel) (cwd : File) (me : Nat) : Handler signature (World × Nat) :=
  Bounded Interrupted (Sys (limited k cwd) me)

/-- The calm server, with the number of signals that may still interrupt a call. -/
abbrev Signalled (cwd : File) (me : Nat) : Handler signature (World × Nat) := Interruptible .ample cwd me

section reads
variable {env : Env} {me : Nat} {w : World}

/-- The reads of `readn` come to an end, if enough bytes come or the stream ends. -/
theorem total_readn (buf : Bytes) (len : Int)
    (comes : len ≤ w.conn.input.length ∨ w.conn.ended = true) (n : Nat) :
    Total (Bounded Interrupted (Sys env me)) (fun _ _ => True) (readn buf len) (w,n) := by
  apply @total_loop _ _ _ _ _ _ _ _ (fun (s : Int × Bytes) (x : World × Nat) =>
    s.1 ≤ x.1.conn.input.length ∨ x.1.conn.ended = true) (fun s x => s.1.toNat + x.2)
  · exact comes
  rintro ⟨left,held⟩ ⟨v,k⟩ comes
  dsimp only at comes ⊢
  split_ifs with more
  · apply total_call
    · by_cases none : v.conn.input = []
      · have closed : v.conn.ended = true := by
          rw [none,List.length_nil] at comes
          exact comes.resolve_left (by omega)
        exact ⟨.eof,(v,k),⟨none,closed,rfl⟩,.inr ⟨id,rfl⟩⟩
      · have fits : (v.conn.input.take left.toNat).length ≤ left.toNat := by simp
        refine ⟨.data (v.conn.input.take left.toNat),(_,k),⟨?_,fits,_,
          (List.take_append_drop _ _).symm,rfl⟩,.inr ⟨id,rfl⟩⟩
        rw [ne_eq,List.take_eq_nil_iff]
        rintro (zero | empty)
        · omega
        · exact none empty
    · intro r x answered
      obtain ⟨v',m⟩ := x
      have answer := answered.1
      cases r with
      | eintr =>
        obtain rfl := answer
        have less := bounded_spent answered trivial
        refine .ret ⟨comes,?_⟩
        dsimp only at less ⊢
        omega
      | failed | eof => exact .ret (.ret trivial)
      | data b =>
        obtain ⟨positive,fits,rest,taken,rfl⟩ := answer
        have same := bounded_free answered id
        have gained := List.length_pos_iff.mpr positive
        refine .ret ⟨?_,?_⟩
        · have size := congrArg List.length taken
          rw [List.length_append] at size
          dsimp only at size ⊢
          exact comes.imp_left fun enough => by omega
        · dsimp only at same ⊢
          omega
  · exact .ret (.ret trivial)

end reads

section specifications
variable {k : Kernel} {cwd : File} {me n : Nat} {input output : Bytes} {ended : Bool} {s : Store}

theorem total_ask {c : Call} {post : Except Halt c.Res → World × Nat → Prop} {w : World}
    (can : ∃ r w', Sys (limited k cwd) me w c r w' ∧ ¬ Interrupted ⟨c,r⟩)
    (after : ∀ r w' n, Sys (limited k cwd) me w c r w' → post (.ok r) (w',n)) :
    Total (Interruptible k cwd me) post (ask c) (w,n) := by
  apply total_call
  · obtain ⟨r,w',answered,quiet⟩ := can
    exact ⟨r,(w',n),answered,.inr ⟨quiet,rfl⟩⟩
  · intro r x answered
    exact .ret (after r x.1 x.2 answered.1)

/-- What is to come is received; it is less than was asked for only where the stream ends. -/
theorem total_receive_end {post : Except Halt Bytes → World × Nat → Prop} (buff got rest : Bytes) {size : Int}
    (bound : (got.length : Int) ≤ toInt size)
    (short : (got.length : Int) < toInt size → ended = true ∧ rest = [])
    (after : ∀ n, post (.ok (overlay buff 0 got)) (⟨⟨rest,ended,output⟩,s⟩,n)) :
    Total (Interruptible k cwd me) post (receive buff size) (⟨⟨got ++ rest,ended,output⟩,s⟩,n) := by
  have comes : toInt size ≤ (got ++ rest).length ∨ ended = true := by
    by_cases less : (got.length : Int) < toInt size
    · exact .inr (short less).1
    · rw [List.length_append]
      exact .inl (by omega)
  have all : (got ++ rest).take (toInt size).toNat = got ∧ (got ++ rest).drop (toInt size).toNat = rest := by
    by_cases less : (got.length : Int) < toInt size
    · obtain rfl := (short less).2
      rw [List.append_nil]
      exact ⟨List.take_of_length_le (by omega),List.drop_of_length_le (by omega)⟩
    · have whole : (toInt size).toNat = got.length := by omega
      rw [whole]
      exact ⟨List.take_left,List.drop_left⟩
  have ends := @total_readn (limited k cwd) me ⟨⟨got ++ rest,ended,output⟩,s⟩ buff (toInt size) comes n
  have received : Wp (Sys (limited k cwd) me) (fun _ _ => True) (readn buff (toInt size))
      (fun out v => ∃ ret, out = .ok (ret,overlay buff 0 got) ∧ v = ⟨⟨rest,ended,output⟩,s⟩)
      ⟨⟨got ++ rest,ended,output⟩,s⟩ := by
    apply wp_readn buff _ fun _ _ => trivial
    intro ret b c received
    obtain ⟨rfl,rfl,-⟩ := received.start fun _ => not_false
    dsimp only
    rw [all.1,all.2]
    exact ⟨ret,rfl,rfl⟩
  apply total_bind
  refine total_mono ?_ (total_of_wp ends (wp_bounded received n))
  rintro _ ⟨_,m⟩ ⟨ret,rfl,rfl⟩
  exact .ret (after m)

theorem total_receive {post : Except Halt Bytes → World × Nat → Prop} (buff got rest : Bytes) {size : Int}
    (length : (got.length : Int) = toInt size)
    (after : ∀ n, post (.ok (overlay buff 0 got)) (⟨⟨rest,ended,output⟩,s⟩,n)) :
    Total (Interruptible k cwd me) post (receive buff size) (⟨⟨got ++ rest,ended,output⟩,s⟩,n) :=
  total_receive_end buff got rest length.le (fun less => absurd length less.ne) after

theorem total_send {post : Except Halt Unit → World × Nat → Prop} {msg : Source} {size : Int}
    (positive : 0 ≤ toInt size) (enough : (toInt size).toNat ≤ (msg.bytes s.files).length)
    (after : ∀ n, post (.ok ())
      (⟨⟨input,ended,output ++ (msg.bytes s.files).take (toInt size).toNat⟩,s⟩,n)) :
    Total (Interruptible k cwd me) post (send msg size) (⟨⟨input,ended,output⟩,s⟩,n) := by
  apply total_bind
  -- Between two writes the source has moved past what was written.
  apply @total_loop _ _ _ _ _ _ _ _ (fun (part : Int × Source) (x : World × Nat) =>
    ∃ j : Nat, 0 ≤ part.1 ∧ part.1 = toInt size - j ∧ part.2 = msg.advance j ∧
      x.1 = ⟨⟨input,ended,output ++ (msg.bytes s.files).take j⟩,s⟩) (fun part x => part.1.toNat + x.2)
  · exact ⟨0,positive,by simp,(msg.advance_zero).symm,by simp⟩
  rintro ⟨left,_⟩ ⟨_,budget⟩ ⟨j,some,count,rfl,here⟩
  dsimp only at some count here ⊢
  subst here
  split_ifs with more
  · have ready : left.toNat ≤ ((msg.advance j).bytes s.files).length := by
      rw [Source.bytes_advance,List.length_drop]
      omega
    apply total_call
    · exact ⟨.count left.toNat,(_,budget),⟨by omega,le_rfl,ready,rfl⟩,.inr ⟨id,rfl⟩⟩
    intro r x answered
    obtain ⟨v,m⟩ := x
    have answer := answered.1
    cases r with
    | eintr =>
      obtain rfl := answer
      have less := bounded_spent answered trivial
      refine .ret ⟨⟨j,some,count,rfl,rfl⟩,?_⟩
      dsimp only
      omega
    | failed => exact absurd (answer.1.resolve_left id) (not_lt.mpr ready)
    | count more =>
      obtain ⟨gained,fits,_,rfl⟩ := answer
      have same := bounded_free answered id
      have nonzero : more ≠ 0 := by omega
      simp only [Prog.ret_bind,if_neg nonzero]
      refine .ret ⟨⟨j + more,?_,?_,?_,?_⟩,?_⟩
      · dsimp only
        omega
      · dsimp only
        push_cast
        omega
      · exact msg.advance_advance j more
      · rw [Source.bytes_advance,List.append_assoc,← List.take_add]
      · dsimp only
        omega
  · have whole : j = (toInt size).toNat := by omega
    subst whole
    exact .ret (.ret (.ret (after budget)))

theorem total_redis {c : Command} {post : Except Halt c.Reply → World × Nat → Prop} {w : World}
    {reply : c.Reply} (answers : (exec w.store.redis.keys c).1 = .ok reply)
    (after : ∀ n, post (.ok reply) (⟨w.conn,{w.store with redis :=
      ⟨(exec w.store.redis.keys c).2,record w.store.redis.added c⟩}⟩,n)) :
    Total (Interruptible k cwd me) post (FileTask.redis c) (w,n) := by
  apply total_bind
  apply total_ask
  · exact ⟨.ok reply,_,⟨_,⟨answers.symm,rfl⟩,rfl⟩,id⟩
  · rintro r w' n ⟨_,⟨rfl,rfl⟩,rfl⟩
    rw [answers]
    exact .ret (after n)

/-- A command that only reads leaves the store as it is. -/
theorem total_reads {c : Command} {post : Except Halt c.Reply → World × Nat → Prop} {conn : Conn}
    {reply : c.Reply} (answers : (exec s.redis.keys c).1 = .ok reply)
    (reads : (exec s.redis.keys c).2 = s.redis.keys ∧ record s.redis.added c = s.redis.added)
    (after : ∀ n, post (.ok reply) (⟨conn,s⟩,n)) :
    Total (Interruptible k cwd me) post (FileTask.redis c) (⟨conn,s⟩,n) := by
  refine total_redis answers ?_
  rw [reads.1,reads.2]
  exact after

theorem total_validate {uuid : Bytes} {userid : UInt64} {conn : Conn}
    {post : Except Halt (Bool × UInt64) → World × Nat → Prop} (session : SessionOf s.redis.keys uuid userid)
    (after : ∀ n, post (.ok (true,userid)) (⟨conn,s⟩,n)) :
    Total (Interruptible k cwd me) post (validate uuid) (⟨conn,s⟩,n) := by
  obtain ⟨fields,expires,held,some,number⟩ := session.live
  apply total_bind
  apply total_reads (show (exec s.redis.keys (.hgetall uuid)).1 = .ok fields by simp [exec,held])
  · exact ⟨(exec_reads _ uuid []).1,rfl⟩
  · intro n
    have found : fields.length ≠ 0 := by simpa using some
    dsimp only [After]
    rw [if_pos found,number]
    exact .ret (after n)

/-- `isfileexits` answers `b`; it asks Redis and MySQL alone. -/
def Answers (cwd : File) (me : Nat) (s : Store) (path : Bytes) (userid : UInt64) (b : Bool) : Prop :=
  ∃ conn w', Runs (Sys (calm cwd) me) (isfileexits path userid) ⟨conn,s⟩ (.ok b) w'

theorem answers_of_respond {path : Bytes} {userid : UInt64} {b : Bool} (fuel : Nat) (conn : Conn)
    (ran : ((respond cwd me).run fuel (isfileexits path userid) ⟨conn,s⟩).map (·.1) = some (.ok b)) :
    Answers cwd me s path userid b := by
  obtain ⟨⟨out,w'⟩,answered,rfl⟩ := Option.map_eq_some_iff.mp ran
  exact ⟨conn,w',Responder.run_sound (respond_within cwd me) fuel _ _ _ _ answered⟩

theorem answers_cases {path : Bytes} {userid : UInt64} {b : Bool} (answer : Answers cwd me s path userid b) :
    (exec s.redis.keys (.sismember (decimal userid.toNat) path)).1 = .ok true ∧ b = true ∨
      (exec s.redis.keys (.sismember (decimal userid.toNat) path)).1 = .ok false ∧
        pathCount s.table path < 2 ^ 31 ∧ b = decide (pathCount s.table path > 0) := by
  obtain ⟨conn,w',run⟩ := answer
  have check : ∃ r, Exists (calm cwd) s path userid (.ok b) r :=
    wp_runs run (@wp_isfileexits _ _ _ (fun _ _ => True) _ _ (fun out _ => ∃ r, Exists (calm cwd) s path userid out r)
      (fun _ _ _ => trivial) trivial fun out r check => ⟨r,check⟩)
  obtain ⟨r,check⟩ := check
  cases check with
  | cached asked => exact .inl ⟨asked.1.symm,rfl⟩
  | counted asked small => exact .inr ⟨asked.1.symm,small,rfl⟩

theorem total_isfileexits {path : Bytes} {userid : UInt64} {b : Bool} {conn : Conn}
    {post : Except Halt Bool → World × Nat → Prop} (answer : Answers cwd me s path userid b)
    (after : ∀ n, post (.ok b) (⟨conn,s⟩,n)) :
    Total (Interruptible k cwd me) post (isfileexits path userid) (⟨conn,s⟩,n) := by
  have reads : (exec s.redis.keys (.sismember (decimal userid.toNat) path)).2 = s.redis.keys ∧
      record s.redis.added (.sismember (decimal userid.toNat) path) = s.redis.added :=
    ⟨(exec_reads _ (decimal userid.toNat) path).2,rfl⟩
  apply total_bind
  rcases answers_cases answer with ⟨cached,rfl⟩ | ⟨absent,small,rfl⟩
  · apply total_reads cached reads
    exact fun n => .ret (after n)
  · apply total_reads absent reads
    intro n
    apply total_bind
    apply total_ask
    · exact ⟨_,_,⟨rfl,.inl rfl⟩,id⟩
    · rintro r w' n ⟨rfl,rfl | ⟨_,fails⟩⟩
      · dsimp only [After]
        rw [if_pos small]
        exact .ret (after n)
      · exact fails.elim

section content
variable {md5 : Bytes → Digest} {fh : Fileheader}

/-- The tries that fail are answered one by one and the content ends the loop. -/
theorem total_receiveChecked {tries : List Bytes} {content rest buff : Bytes}
    {post : Except Halt Bytes → World × Nat → Prop} (positive : 0 ≤ fh.filelen) (small : fh.filelen < 2 ^ 31)
    (size : buff.length = fh.filelen.toNat)
    (wrong : ∀ b ∈ tries, b.length = fh.filelen.toNat ∧ md5 b ≠ fh.md5)
    (right : content.length = fh.filelen.toNat ∧ md5 content = fh.md5)
    (after : ∀ n, post (.ok content)
      (⟨⟨rest,ended,output ++ tries.flatMap fun _ => fileerror true⟩,s⟩,n)) :
    Total (Interruptible k cwd me) post (receiveChecked md5 fh buff)
      (⟨⟨tries.flatten ++ content ++ rest,ended,output⟩,s⟩,n) := by
  have length {got : Bytes} (come : got.length = fh.filelen.toNat) : (got.length : Int) = toInt fh.filelen := by
    rw [toInt_eq_self positive small]
    omega
  induction tries generalizing buff output n with
  | nil =>
    apply total_round
    apply total_bind
    apply total_receive buff content rest (length right.1)
    intro n
    rw [overlay_full (right.1.trans size.symm)]
    dsimp only [After]
    rw [if_pos right.2]
    rw [List.flatMap_nil,List.append_nil] at after
    exact .ret (.ret (after n))
  | cons first tries ih =>
    have bad := wrong first (by simp)
    simp only [List.flatten_cons,List.append_assoc]
    apply total_round
    apply total_bind
    apply total_receive buff first _ (length bad.1)
    intro n
    rw [overlay_full (bad.1.trans size.symm)]
    dsimp only [After]
    rw [if_neg bad.2]
    apply total_bind
    apply total_send (by decide) (by simp [Source.bytes,fileerror,flagRecord,toInt])
    intro n
    apply Total.ret
    rw [← List.append_assoc]
    apply ih bad.1 (fun b inside => wrong b (by simp [inside]))
    intro n
    simpa [Source.bytes,fileerror,flagRecord,toInt] using after n

/-- The memory and the file for the content can be had, and one `write` takes it whole. -/
structure Stores (k : Kernel) (fh : Fileheader) : Prop where
  allocates : k.allocates fh.filelen.toNat
  opens : k.opens (hashPath fh.md5)
  writes : k.writes fh.filelen.toNat

theorem total_savefile {userid : UInt64} {b : Bool} {tries : List Bytes} {content rest : Bytes}
    {post : Except Halt Bytes → World × Nat → Prop} (positive : 0 ≤ fh.filelen) (small : fh.filelen < 2 ^ 31)
    (answer : Answers cwd me s (hashPath fh.md5) userid b) (stores : b = false → Stores k fh)
    (wrong : b = false → ∀ t ∈ tries, t.length = fh.filelen.toNat ∧ md5 t ≠ fh.md5)
    (right : b = false → content.length = fh.filelen.toNat ∧ md5 content = fh.md5)
    (after : ∀ n, post (.ok (hashPath fh.md5)) (⟨⟨rest,ended,output ++ fileexists b ++
      (if b then [] else tries.flatMap fun _ => fileerror true)⟩,⟨s.redis,s.table,
        if b then s.files else (s.files.create (hashFile fh.md5)).append (hashFile fh.md5) ⟨me,content⟩⟩⟩,n)) :
    Total (Interruptible k cwd me) post (savefile md5 fh userid)
      (⟨⟨(if b then [] else tries.flatten ++ content) ++ rest,ended,output⟩,s⟩,n) := by
  apply total_bind
  apply total_isfileexits answer
  intro n
  apply total_bind
  apply total_send (by decide) (by simp [Source.bytes,fileexists,flagRecord,toInt])
  intro n
  have flag : (Source.bytes s.files (.buf (fileexists b))).take (toInt 1).toNat = fileexists b := rfl
  rw [flag]
  dsimp only [After]
  cases b with
  | true =>
    simp only [if_true,List.append_nil,List.nil_append] at after ⊢
    exact .ret (after n)
  | false =>
    simp only [Bool.false_eq_true,if_false] at after ⊢
    have able := stores rfl
    have whole := (right rfl).1
    rw [if_neg (by omega)]
    apply total_bind
    apply total_ask
    · exact ⟨_,_,⟨rfl,.inl ⟨_,rfl,length_zeros _,able.allocates⟩⟩,id⟩
    rintro r w' n ⟨rfl,⟨fresh,rfl,size,-⟩ | ⟨_,fails⟩⟩
    · apply total_bind
      apply total_receiveChecked positive small size (wrong rfl) (right rfl)
      intro n
      apply total_bind
      apply total_ask
      · exact ⟨_,_,.inl ⟨rfl,able.opens,rfl⟩,id⟩
      rintro fd w' n (⟨rfl,-,rfl⟩ | ⟨_,fails,_⟩)
      · have takes := able.writes
        rw [← whole] at takes
        refine total_bind (total_ask (c := .writeFile (some _) _) ⟨(),_,.inl ⟨takes,rfl⟩,id⟩ ?_)
        rintro _ w' n (⟨-,rfl⟩ | ⟨fails,_⟩)
        · refine total_bind (total_ask (c := .close _) ⟨(),_,rfl,id⟩ ?_)
          rintro _ w' n rfl
          rw [resolve_hashPath]
          exact .ret (after n)
        · exact absurd takes (fails.resolve_left id)
      · exact absurd able.opens (fails.resolve_left id)
    · exact absurd able.allocates (fails.resolve_left id)

theorem total_upload {userid : UInt64} {b : Bool} {tries : List Bytes} {content rest filename : Bytes}
    {post : Except Halt Unit → World × Nat → Prop} (positive : 0 ≤ fh.filelen) (small : fh.filelen < 2 ^ 31)
    (answer : Answers cwd me s (hashPath fh.md5) userid b) (stores : b = false → Stores k fh)
    (wrong : b = false → ∀ t ∈ tries, t.length = fh.filelen.toNat ∧ md5 t ≠ fh.md5)
    (right : b = false → content.length = fh.filelen.toNat ∧ md5 content = fh.md5)
    (after : ∀ redis n, post (.ok ()) (⟨⟨rest,ended,output ++ fileexists b ++
      (if b then [] else tries.flatMap fun _ => fileerror true)⟩,⟨redis,s.table ++ [newRow fh filename userid],
        if b then s.files else (s.files.create (hashFile fh.md5)).append (hashFile fh.md5) ⟨me,content⟩⟩⟩,n)) :
    Total (Interruptible k cwd me) post (upload md5 fh filename userid)
      (⟨⟨(if b then [] else tries.flatten ++ content) ++ rest,ended,output⟩,s⟩,n) := by
  -- The key of the user's cache was read as a set, so it takes another member.
  have adds : (exec s.redis.keys (.sadd (decimal userid.toNat) (hashPath fh.md5))).1 = .ok () := by
    have asked := answers_cases answer
    simp only [exec] at asked ⊢
    split at asked
    · rfl
    · rfl
    · rcases asked with ⟨failed,_⟩ | ⟨failed,_⟩ <;> cases failed
  apply total_bind
  apply total_savefile positive small answer stores wrong right
  intro n
  apply total_bind
  apply total_ask
  · exact ⟨_,_,.inl ⟨rfl,rfl⟩,id⟩
  rintro _ w' n (⟨_,rfl⟩ | ⟨_,fails,_⟩)
  · refine total_bind (total_redis (c := .sadd _ _) adds fun n => ?_)
    exact total_redis (c := .setex _ _ _) rfl fun n => after _ n
  · exact fails.elim

end content

end specifications

/-- What an upload answered with `b` has taken and sent, and what it has left. -/
structure Completed (me : Nat) (q : Upload) (userid : UInt64) (s : Store) (output : Bytes) (b : Bool)
    (tries : List Bytes) (content rest : Bytes) (out : Except Halt Unit) (w : World) : Prop where
  returned : out = .ok ()
  input : w.conn.input = rest
  sent : w.conn.output = output ++ (userValidation true ++ (fileexists b ++
    if b then [] else tries.flatMap fun _ => fileerror true))
  inserted : w.store.table = s.table ++ [newRow q.fileheader q.filename userid]
  files : w.store.files = if b then s.files else
    (s.files.create (hashFile q.fileheader.md5)).append (hashFile q.fileheader.md5) ⟨me,content⟩

section protocol
variable {k : Kernel} {cwd : File} {me : Nat} {md5 : Bytes → Digest} {q : Upload} {uuid output content rest : Bytes}
  {userid : UInt64} {s : Store} {b : Bool} {tries : List Bytes}

theorem key_read (plain : 0 ∉ uuid) (key : uuid ++ [0] <+: q.record) (beyond : Bytes) :
    uuidOf q.record beyond = uuid := by
  obtain ⟨padding,record⟩ := key
  unfold uuidOf
  rw [← record,List.append_assoc,List.append_assoc,cstr_append_of_plain plain]
  simp [cstr]

theorem total_process (key : ∀ beyond, uuidOf q.record beyond = uuid)
    (session : SessionOf s.redis.keys uuid userid)
    (low : 0 ≤ namelenOf q.record) (high : namelenOf q.record < 2 ^ 31 - 1)
    (positive : 0 ≤ q.fileheader.filelen) (small : q.fileheader.filelen < 2 ^ 31)
    (room : k.arrays (namelenOf q.record + 1).toNat)
    (answer : Answers cwd me s (hashPath q.fileheader.md5) userid b)
    (stores : b = false → Stores k q.fileheader)
    (wrong : b = false → ∀ t ∈ tries, t.length = q.fileheader.filelen.toNat ∧ md5 t ≠ q.fileheader.md5)
    (right : b = false → content.length = q.fileheader.filelen.toNat ∧ md5 content = q.fileheader.md5)
    (body : q.body = (if b then [] else tries.flatten ++ content) ++ rest) (n : Nat) :
    Total (Interruptible k cwd me) (fun out x => Completed me q userid s output b tries content rest out x.1)
      (process md5) (⟨q.conn output,s⟩,n) := by
  have flag (b : Bool) : (Source.bytes s.files (.buf (flagRecord b))).take (toInt 1).toNat = flagRecord b := rfl
  apply total_bind
  apply total_receive _ q.record
  · rw [q.recordSize]
    rfl
  intro n
  rw [overlay_zeros q.recordSize]
  refine total_bind (total_ask (c := .beyond) ⟨[],_,rfl,id⟩ ?_)
  rintro beyond w' n rfl
  dsimp only [After]
  rw [key]
  apply total_bind
  apply total_validate session
  intro n
  apply total_bind
  apply total_send (by decide) (by simp [Source.bytes,userValidation,flagRecord,toInt])
  intro n
  dsimp only [After]
  rw [if_pos rfl,if_pos ⟨low,by omega⟩]
  apply total_bind
  apply total_ask
  · exact ⟨true,_,⟨rfl,.inl ⟨rfl,room⟩⟩,id⟩
  rintro fits w' n ⟨rfl,⟨rfl,-⟩ | ⟨-,full⟩⟩
  case inr => exact absurd room (full.resolve_left id)
  dsimp only [After]
  rw [if_pos rfl]
  apply total_bind
  apply total_receive _ q.name
  · rw [toInt_eq_self low (by omega),q.nameSize]
    omega
  intro n
  apply total_bind
  apply total_receive _ q.header
  · rw [q.headerSize]
    rfl
  intro n
  rw [overlay_zeros q.headerSize,filename_read low]
  dsimp only [After]
  rw [if_pos q.wanted,body]
  apply total_upload positive small answer stores wrong right
  intro redis n
  exact ⟨rfl,rfl,by simp [userValidation,Source.bytes,flagRecord,toInt],rfl,rfl⟩

/-- An upload request that the server has the stack, the memory and the file for comes to an end
however its bytes arrive; it takes its own bytes and no more, and is answered, stored and
inserted once. -/
theorem upload_completes (plain : 0 ∉ uuid) (key : uuid ++ [0] <+: q.record)
    (session : SessionOf s.redis.keys uuid userid)
    (low : 0 ≤ namelenOf q.record) (high : namelenOf q.record < 2 ^ 31 - 1)
    (positive : 0 ≤ q.fileheader.filelen) (small : q.fileheader.filelen < 2 ^ 31)
    (room : k.arrays (namelenOf q.record + 1).toNat)
    (answer : Answers cwd me s (hashPath q.fileheader.md5) userid b)
    (stores : b = false → Stores k q.fileheader)
    (wrong : b = false → ∀ t ∈ tries, t.length = q.fileheader.filelen.toNat ∧ md5 t ≠ q.fileheader.md5)
    (right : b = false → content.length = q.fileheader.filelen.toNat ∧ md5 content = q.fileheader.md5)
    (body : q.body = (if b then [] else tries.flatten ++ content) ++ rest) :
    (∀ n, Total (Interruptible k cwd me) (fun out x => Completed me q userid s output b tries content rest out x.1)
      (process md5) (⟨q.conn output,s⟩,n)) ∧
    ∀ out w', Runs (Sys (limited k cwd) me) (process md5) ⟨q.conn output,s⟩ out w' →
      Completed me q userid s output b tries content rest out w' := by
  have total := @total_process k cwd me md5 q uuid output content rest userid s b tries
    (key_read plain key) session low high positive small room answer stores wrong right body
  exact ⟨total,fun out w' run => runs_of_total run total⟩

end protocol

section sample

/-- Names of 1 to 255 bytes, a stack of 8 MiB, and the most that Linux writes at once. -/
def sampleKernel : Kernel :=
  ⟨fun path => path ≠ [] ∧ path.length ≤ 255,fun n => n < addressSpace,fun n => n < 2 ^ 23,
    fun n => n ≤ 0x7ffff000⟩

/-- Another content, the announced one, and the start of the next request. -/
def sampleResent : Upload where
  toRequest := .encode (ascii "s1") (ascii "f") ⟨0,sampleDigest,1,true,1⟩ (ascii "banext") false
    first_key_short name_short
  wanted := rfl

/-- Content that is known, with a length of its own. -/
def sampleKnown : Upload where
  toRequest := .encode (ascii "s1") (ascii "g") ⟨0,sampleDigest,1,true,5⟩ (ascii "next") false
    first_key_short name_short
  wanted := rfl

/-- The content is stored, and the user's cache has expired. -/
def sampleExpired : Store := ⟨⟨sampleKeys,[]⟩,sampleStored.table,sampleStored.files⟩

theorem sampleResent_completes : Total (Interruptible sampleKernel [] 0) (fun out x =>
    Completed 0 sampleResent 1 sampleStart [] false [ascii "b"] (ascii "a") (ascii "next") out x.1)
    (process sampleMd5) (⟨sampleResent.conn [],sampleStart⟩,3) ∧
    Total (Interruptible sampleKernel [] 0) (fun out x =>
      Completed 0 sampleKnown 1 sampleExpired [] true [] [] (ascii "next") out x.1)
      (process sampleMd5) (⟨sampleKnown.conn [],sampleExpired⟩,3) := by
  have plain : (0 : UInt8) ∉ ascii "s1" := by decide
  constructor
  · have session : SessionOf sampleStart.redis.keys (ascii "s1") 1 :=
      ⟨[(ascii "username",ascii "ann"),(ascii "userid",ascii "1")],false,rfl,by simp,by decide⟩
    have answer : Answers [] 0 sampleStart (hashPath sampleResent.fileheader.md5) 1 false :=
      answers_of_respond 10 ⟨[],true,[]⟩ (by decide +kernel)
    have key : ascii "s1" ++ [0] <+: sampleResent.record := by decide +kernel
    have length : sampleResent.fileheader.filelen.toNat = 1 := by decide +kernel
    have room : (namelenOf sampleResent.record + 1).toNat < 2 ^ 23 := by decide +kernel
    have opens : hashPath sampleResent.fileheader.md5 ≠ [] ∧
      (hashPath sampleResent.fileheader.md5).length ≤ 255 := by decide +kernel
    have stores : Stores sampleKernel sampleResent.fileheader := by
      refine ⟨?_,opens,?_⟩ <;> simp [sampleKernel,length,addressSpace]
    exact (upload_completes plain key session (by decide +kernel) (by decide +kernel) (by decide +kernel)
      (by decide +kernel) room answer (fun _ => stores) (fun _ => by decide +kernel)
      (fun _ => by decide +kernel) (by decide +kernel)).1 3
  · have answer : Answers [] 0 sampleExpired (hashPath sampleKnown.fileheader.md5) 1 true :=
      answers_of_respond 10 ⟨[],true,[]⟩ (by decide +kernel)
    have key : ascii "s1" ++ [0] <+: sampleKnown.record := by decide +kernel
    have room : (namelenOf sampleKnown.record + 1).toNat < 2 ^ 23 := by decide +kernel
    exact (upload_completes plain key sample_session (by decide +kernel) (by decide +kernel)
      (by decide +kernel) (by decide +kernel) room answer nofun nofun nofun (by decide +kernel)).1 3

end sample

end FilediskServer.UploadProtocol
