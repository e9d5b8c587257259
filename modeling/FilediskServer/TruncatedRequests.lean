import FilediskServer.FileTaskCalls
import FilediskServer.KeyTypes

/-! Requests whose stream ends before the file header is complete. `receive` drops what
`readn` returns, so the records are used as far as they came, with zeros for the rest. -/
namespace FilediskServer.TruncatedRequests
open Interaction Bytes CusInfo Redis Filetree Disk Calls SocketIO FileTask FileTaskRuns UploadHistory
open Downloads KeyTypes

/-- Commands are executed by type or fail without effect. -/
def failing : Semantics := fun s c r s' => typed s c r s' ∨ (∃ e, r = .error e) ∧ s' = s

/-- Everything may fail, reading only where the stream has come to its end. -/
def truncatedEnv (k : Kernel) (cwd : File) : Env :=
  ⟨failing,cwd,k,fun c => c.input = [],True,True,True,True,True⟩

/-- The stream holds less than the record, the name it announces and a file header. A length
below zero announces no byte of a name. -/
def Truncated (c : Conn) : Prop := c.input.length < afterName c + sizeofFileheader

def nameRead (c : Conn) : Bytes := cstr (filled (namelenOf (recordRead c) + 1).toNat
  ((c.input.drop sizeofDatauuid).take (namelenOf (recordRead c)).toNat))

/-- What `isfileexits` answers, if nothing fails; `stoi` throws on a count that is too large. -/
def known (s : Store) (path : Bytes) (userid : UInt64) : Option Bool :=
  match (exec s.redis.keys (.sismember (decimal userid.toNat) path)).1 with
  | .ok true => some true
  | .ok false => if pathCount s.table path < 2 ^ 31 then some (decide (pathCount s.table path > 0)) else none
  | .error _ => none

/-- The content is not known, and no memory that an announced length may bring has its digest. -/
def NotStored (k : Kernel) (md5 : Bytes → Digest) (s : Store) (fh : Fileheader) (userid : UInt64) : Prop :=
  known s (hashPath fh.md5) userid ≠ some true ∧
    (known s (hashPath fh.md5) userid = some false → 0 ≤ fh.filelen → k.allocates fh.filelen.toNat →
      ∀ b : Bytes, b.length = fh.filelen.toNat → md5 b ≠ fh.md5)

/-- No rows are selected, or one with a NULL; or the file of the name is there or cannot be opened. -/
def NotServed (k : Kernel) (cwd : File) (s : Store) (fh : Fileheader) (name : Bytes) (userid : UInt64) : Prop :=
  selected s.table userid (toUnsigned fh.dirid) name = [] ∨
    (∃ row ∈ selected s.table userid (toUnsigned fh.dirid) name, Cells.item row.cells = none) ∨
    s.files (resolve cwd name) ≠ none ∨ ¬ k.opens name

/-- What has come of the records makes no request that has an effect, and no array that has
no meaning. -/
structure Harmless (k : Kernel) (cwd : File) (md5 : Bytes → Digest) (w : World) : Prop where
  bounded : ∀ beyond userid, SessionOf w.store.redis.keys (uuidOf (recordRead w.conn) beyond) userid →
    0 ≤ namelenOf (recordRead w.conn) ∧ namelenOf (recordRead w.conn) + 1 < 2 ^ 31
  idle : ∀ beyond userid, SessionOf w.store.redis.keys (uuidOf (recordRead w.conn) beyond) userid →
    k.arrays (namelenOf (recordRead w.conn) + 1).toNat →
    if (headerRead w.conn).upload then NotStored k md5 w.store (headerRead w.conn) userid
    else NotServed k cwd w.store (headerRead w.conn) (nameRead w.conn) userid

/-- At no point of a run is the store another, and no run comes to an array that has no
meaning, from where C++ promises nothing. -/
structure WithoutEffect (k : Kernel) (cwd : File) (me : Nat) (md5 : Bytes → Digest) (w : World) : Prop where
  unchanged : ∀ p' w', Reaches (Sys (truncatedEnv k cwd) me) (process md5) w p' w' → w'.store = w.store
  defined : ∀ out w', Runs (Sys (truncatedEnv k cwd) me) (process md5) w out w' → out ≠ .error .undefined

/-- The calls that leave the store as it is. -/
def Plain : Call → Prop
  | .query (.insert ..) => False
  | .redis (.hmset ..) | .redis (.sadd ..) | .redis (.setex ..) => False
  | .openFile _ | .writeFile .. => False
  | _ => True

section limited
variable {k : Kernel} {cwd : File} {me : Nat} {w : World}

def Stays (k : Kernel) (cwd : File) (me : Nat) : World → Call → Prop := fun w c =>
  ∀ r w', Sys (truncatedEnv k cwd) me w c r w' → w'.store = w.store

theorem failing_reads {s s' : Redis.State} {c : Command} {r : Except RedisError c.Reply}
    (reads : (exec s.keys c).2 = s.keys ∧ record s.added c = s.added) (answered : failing s c r s') :
    s' = s := by
  rcases answered with ⟨_,rfl⟩ | ⟨_,rfl⟩
  · rw [reads.1,reads.2]
  · rfl

theorem plain_stays {c : Call} (plain : Plain c) : Stays k cwd me w c := by
  intro r w' answered
  cases sys_changes answered with
  | nothing | read | write => rfl
  | @redis command =>
    obtain ⟨s,asked,same⟩ := answered
    rw [same]
    cases command with
    | hgetall key => rw [failing_reads ⟨(exec_reads _ key []).1,rfl⟩ asked]
    | sismember key member => rw [failing_reads ⟨(exec_reads _ key member).2,rfl⟩ asked]
    | hmset | sadd | setex => exact plain.elim
  | insert | openFile | writeFile => exact plain.elim

theorem wp_plain {α : Type} {p : Job α} {post : Except Halt α → World → Prop} (only : Only Plain p)
    (holds : Wp (Sys (truncatedEnv k cwd) me) (fun _ _ => True) p post w) :
    Wp (Sys (truncatedEnv k cwd) me) (Stays k cwd me) p post w :=
  wp_allow (fun _ _ is => plain_stays is.2) (wp_only_allow only holds)

/-- Nothing comes any more, so the memory stays as it was given. -/
theorem checked_fresh {env : Env} {md5 : Bytes → Digest} {fh : Fileheader} {c c' : Conn} {fresh b : Bytes}
    (empty : c.input = []) (checked : Checked env md5 fh c fresh b c') : md5 fresh = fh.md5 := by
  have nothing {c c' : Conn} {n : Nat} {got : Bytes} (empty : c.input = []) (body : Received env c n got c') :
      got = [] ∧ c'.input = [] := List.append_eq_nil_iff.mp (body.taken.symm.trans empty)
  have unchanged {p : Conn × Bytes} (rounds : Relation.ReflTransGen (Resent env md5 fh) (c,fresh) p) :
      p.1.input = [] ∧ p.2 = fresh := by
    induction rounds with
    | refl => exact ⟨empty,rfl⟩
    | tail _ round ih =>
      cases round with
      | mk body =>
        obtain ⟨rfl,rest⟩ := nothing ih.1 body
        obtain rfl := ih.2
        exact ⟨rest,overlay_nil _⟩
  cases checked with
  | mk rounds body right =>
    obtain ⟨waiting,rfl⟩ := unchanged rounds
    obtain ⟨rfl,_⟩ := nothing waiting body
    simpa using right

theorem exists_known {env : Env} (answers : ∀ s c r s', env.redis s c r s' → failing s c r s') {s : Store}
    {path : Bytes} {userid : UInt64} {b : Bool} {r : Redis.State}
    (check : Exists env s path userid (.ok b) r) : known s path userid = some b := by
  have by_type {v : Bool} (asked : env.redis s.redis (.sismember (decimal userid.toNat) path) (.ok v) r) :
      (exec s.redis.keys (.sismember (decimal userid.toNat) path)).1 = .ok v := by
    rcases answers _ _ _ _ asked with ⟨same,_⟩ | ⟨⟨e,failed⟩,_⟩
    · exact same.symm
    · cases failed
  unfold known
  cases check with
  | cached asked => rw [by_type asked]
  | counted asked small =>
    rw [by_type asked]
    exact if_pos small

section harmless
variable {md5 : Bytes → Digest} {fh : Fileheader} {filename : Bytes} {userid : UInt64} {path : Bytes}

theorem wp_upload_harmless (empty : w.conn.input = []) (not : NotStored k md5 w.store fh userid) :
    Wp (Sys (truncatedEnv k cwd) me) (Stays k cwd me) (upload md5 fh filename userid) (fun _ _ => True) w := by
  apply wp_bind
  apply wp_bind
  apply wp_plain (only_isfileexits trivial trivial)
  apply wp_isfileexits (fun _ _ _ => trivial) trivial
  intro out r check
  match out with
  | .error e => trivial
  | .ok b =>
    have answer := exists_known (fun _ _ _ _ => id) check
    cases b with
    | true => exact absurd answer not.1
    | false =>
      apply wp_bind
      apply wp_plain (only_send (fun _ _ => trivial) _ _)
      apply wp_send _ _ (fun _ _ _ _ => trivial)
      intro sent _
      simp only [After,Bool.false_eq_true,if_false]
      split_ifs with negative
      · trivial
      apply wp_bind
      apply wp_plain (only_ask (c := .alloc _) trivial)
      apply wp_ask trivial
      rintro _ w' ⟨rfl,⟨fresh,rfl,size,allocates⟩ | ⟨rfl,_⟩⟩
      · apply wp_bind
        apply wp_plain (only_receiveChecked (fun _ => trivial) (fun _ _ => trivial) _)
        apply wp_receiveChecked (fun _ _ _ => trivial)
        intro b c checked
        have right : md5 fresh = fh.md5 := by
          apply checked_fresh _ checked
          exact empty
        exact absurd right (not.2 answer (by omega) allocates fresh size)
      · trivial

theorem open_stays {path : Bytes} (not : w.store.files (resolve cwd path) ≠ none ∨ ¬ k.opens path) :
    Stays k cwd me w (.openFile path) := by
  rintro fd w' (⟨rfl,opens,rfl⟩ | ⟨_,_,rfl⟩)
  · have present := not.resolve_right (absurd opens)
    change {w.store with files := w.store.files.create (resolve cwd path)} = w.store
    rw [Files.create_present _ present]
  · rfl

theorem wp_download_harmless (not : NotServed k cwd w.store fh filename userid) :
    Wp (Sys (truncatedEnv k cwd) me) (Stays k cwd me) (downloadfile fh filename userid) (fun _ _ => True) w := by
  apply wp_bind
  apply wp_plain (only_getfilelist trivial)
  apply wp_getfilelist trivial (fun _ => trivial)
  intro rows order
  rcases not with none | ⟨row,selected,null⟩ | closed
  · rw [none,List.map_nil] at order
    obtain rfl := order.eq_nil
    trivial
  · cases items : rows.mapM Cells.item with
    | none => trivial
    | some list =>
      have inside : row.cells ∈ rows := order.mem_iff.mpr (List.mem_map_of_mem selected)
      exact absurd null (mapM_item_some.mp ⟨list,items⟩ row.cells inside)
  · cases items : rows.mapM Cells.item with
    | none => trivial
    | some list =>
      have only := @only_sendFiles (fun c => c = .openFile filename ∨ Plain c) fh filename (.inl rfl)
        (fun _ _ => .inr trivial) (fun _ => .inr trivial) (fun _ _ => .inr trivial) (fun _ => .inr trivial)
        (fun _ => .inr trivial) list
      have stays (v : World) (c : Call) (same : v.store = w.store) (is : c = .openFile filename ∨ Plain c) :
          Stays k cwd me v c := by
        rcases is with rfl | plain
        · exact open_stays (same ▸ closed)
        · exact plain_stays plain
      apply wp_only (K := fun v => v.store = w.store) only rfl _ stays (fun _ _ _ => trivial)
      intro v c r v' same is answered
      exact (stays v c same is r v' answered).trans same

end harmless

theorem session_failing {env : Env} (answers : ∀ s c r s', env.redis s c r s' → failing s c r s')
    {s s' : Redis.State} {uuid : Bytes} {userid : UInt64} (session : Session env s uuid userid s') :
    SessionOf s.keys uuid userid ∧ s' = s := by
  obtain ⟨fields,asked,some,number⟩ := session.live
  have asked := answers _ _ _ _ asked
  refine ⟨?_,failing_reads ⟨(exec_reads _ uuid []).1,rfl⟩ asked⟩
  rcases asked with ⟨reply,_⟩ | ⟨⟨e,failed⟩,_⟩
  · simp only [exec] at reply
    split at reply
    · exact absurd (Except.ok.inj reply) some
    next held =>
      obtain rfl := Except.ok.inj reply
      exact ⟨⟨_,_,held,some,number⟩⟩
    · cases reply
  · cases failed

theorem nothing_left {c : Conn} (truncated : Truncated c) :
    ((c.input.drop sizeofDatauuid).drop (namelenOf (recordRead c)).toNat).drop sizeofFileheader = [] := by
  apply List.drop_eq_nil_of_le
  simp only [List.length_drop]
  unfold Truncated afterName at truncated
  omega

theorem wp_process_harmless {md5 : Bytes → Digest} (truncated : Truncated w.conn)
    (harmless : Harmless k cwd md5 w) :
    Wp (Sys (truncatedEnv k cwd) me) (Stays k cwd me) (process md5) (fun _ _ => True) w := by
  have reads (c : Conn) (empty : (truncatedEnv k cwd).readFails c) : c.input = [] := empty
  apply wp_bind
  apply wp_plain (only_receive (fun _ => trivial) _ _)
  apply wp_receive _ _ (fun _ _ => trivial)
  intro got c record
  obtain ⟨rfl,rfl⟩ := (show Received _ _ sizeofDatauuid got c from record).all reads
  rw [show overlay (zeros sizeofDatauuid) 0 (w.conn.input.take sizeofDatauuid) = recordRead w.conn from rfl]
  refine wp_bind (wp_plain (only_ask (c := .beyond) trivial) (wp_ask trivial ?_))
  rintro beyond _ rfl
  refine wp_bind (wp_plain (only_validate trivial) (FileTaskRuns.wp_validate trivial (fun _ _ _ => trivial)
    (fun _ _ => ?_) (fun _ _ _ _ _ => trivial) fun userid s session => ?_))
  · apply wp_bind
    apply wp_plain (only_send (fun _ _ => trivial) _ _)
    apply wp_send _ _ (fun _ _ _ _ => trivial)
    exact fun _ _ => trivial
  obtain ⟨live,rfl⟩ := session_failing (fun _ _ _ _ => id) session
  apply wp_bind
  apply wp_plain (only_send (fun _ _ => trivial) _ _)
  apply wp_send _ _ (fun _ _ _ _ => trivial)
  intro sent _
  dsimp only [After]
  rw [if_pos rfl]
  split_ifs with bounds
  · apply wp_bind
    apply wp_plain (only_ask (c := .array _) trivial)
    apply wp_ask trivial
    rintro fits _ ⟨rfl,⟨rfl,room⟩ | ⟨rfl,_⟩⟩
    case inr => trivial
    dsimp only [After]
    rw [if_pos rfl]
    apply wp_bind
    apply wp_plain (only_receive (fun _ => trivial) _ _)
    apply wp_receive _ _ (fun _ _ => trivial)
    intro name c named
    rw [toInt_eq_self bounds.1 (by omega)] at named
    obtain ⟨rfl,rfl⟩ := named.all reads
    apply wp_bind
    apply wp_plain (only_receive (fun _ => trivial) _ _)
    apply wp_receive _ _ (fun _ _ => trivial)
    intro header c headed
    obtain ⟨rfl,rfl⟩ := (show Received _ _ sizeofFileheader header c from headed).all reads
    have outcome := harmless.idle beyond userid live room
    dsimp only [After,Conn.wrote]
    rw [header_read]
    split_ifs with wanted
    · rw [if_pos wanted] at outcome
      exact wp_upload_harmless (nothing_left truncated) outcome
    · rw [if_neg wanted] at outcome
      exact wp_download_harmless outcome
  · trivial

theorem can_known {env : Env} (allows : ∀ s c r s', typed s c r s' → env.redis s c r s') {path : Bytes}
    {userid : UInt64} {b : Bool} {post : Except Halt Bool → World → Prop}
    (answer : known w.store path userid = some b) (after : post (.ok b) w) :
    Can (Sys env me) (isfileexits path userid) post w := by
  have asked {v : Bool} (reply : (exec w.store.redis.keys (.sismember (decimal userid.toNat) path)).1 = .ok v) :
      env.redis w.store.redis (.sismember (decimal userid.toNat) path) (.ok v) w.store.redis :=
    allows _ _ _ _ ⟨reply.symm,by rw [(exec_reads _ (decimal userid.toNat) path).2]; rfl⟩
  unfold known at answer
  split at answer
  next reply =>
    obtain rfl := Option.some.inj answer
    exact can_bind (can_bind (can_ask ⟨_,asked reply,rfl⟩ (can_ret (can_ret after))))
  next reply =>
    split_ifs at answer with small
    obtain rfl := Option.some.inj answer
    refine can_bind (can_bind (can_ask ⟨_,asked reply,rfl⟩ (can_ret ?_)))
    refine can_bind (can_ask (r := some (pathCount w.store.table path)) ⟨rfl,.inl rfl⟩ ?_)
    dsimp only [After]
    rw [if_pos small]
    exact can_ret after
  · cases answer

theorem can_isfileexits {path : Bytes} {userid : UInt64} {b : Bool} {post : Except Halt Bool → World → Prop}
    (answer : known w.store path userid = some b) (after : post (.ok b) w) :
    Can (Sys (truncatedEnv k cwd) me) (isfileexits path userid) post w := by
  apply can_known _ answer after
  exact fun _ _ _ _ => Or.inl

theorem can_receiveChecked_fresh {md5 : Bytes → Digest} {fh : Fileheader} {fresh : Bytes}
    {post : Except Halt Bytes → World → Prop} (empty : w.conn.input = []) (right : md5 fresh = fh.md5)
    (after : post (.ok fresh) w) : Can (Sys (truncatedEnv k cwd) me) (receiveChecked md5 fh fresh) post w := by
  apply can_loop
  apply can_bind
  apply can_receive_end fresh (.inr (.inr rfl))
  have unread (n : Nat) : {w with conn := {w.conn with input := w.conn.input.drop n}} = w := by
    rw [empty,List.drop_nil,← empty]
  rw [unread,empty,List.take_nil,overlay_nil]
  dsimp only [After]
  rw [if_pos right]
  exact can_ret (can_ret after)

section harmful
variable {md5 : Bytes → Digest} {fh : Fileheader} {filename : Bytes} {userid : UInt64}

theorem can_savefile (empty : w.conn.input = []) (stored : ¬ NotStored k md5 w.store fh userid) :
    Can (Sys (truncatedEnv k cwd) me) (savefile md5 fh userid)
      (fun out v => out = .ok (hashPath fh.md5) ∧ v.store = w.store) w := by
  have sends (b : Bool) {post : Except Halt Unit → World → Prop}
      (after : post (.ok ()) {w with conn := {w.conn with output := w.conn.output ++ fileexists b}}) :
      Can (Sys (truncatedEnv k cwd) me) (send (.buf (fileexists b)) 1) post w :=
    can_send _ _ after
  unfold NotStored at stored
  by_cases cached : known w.store (hashPath fh.md5) userid = some true
  · exact can_bind (can_isfileexits cached (can_bind (sends true (can_ret ⟨rfl,rfl⟩))))
  push Not at stored
  obtain ⟨absent,positive,allocates,fresh,size,right⟩ := stored cached
  refine can_bind (can_isfileexits absent (can_bind (sends false ?_)))
  simp only [After,Bool.false_eq_true,if_false,if_neg (not_lt.mpr positive)]
  have given : Sys (truncatedEnv k cwd) me {w with conn := {w.conn with output := w.conn.output ++ fileexists false}}
      (.alloc fh.filelen.toNat) (some fresh) _ := ⟨rfl,.inl ⟨fresh,rfl,size,allocates⟩⟩
  refine can_bind (can_call given (can_ret (can_bind (can_receiveChecked_fresh empty right ?_))))
  refine can_bind (can_call (r := none) (.inr ⟨rfl,.inl trivial,rfl⟩) (can_ret ?_))
  refine can_bind (can_call (r := ()) rfl (can_ret ?_))
  refine can_bind (can_call (r := ()) rfl (can_ret ?_))
  exact can_ret ⟨rfl,rfl⟩

theorem meets_upload (empty : w.conn.input = []) (stored : ¬ NotStored k md5 w.store fh userid) :
    Meets (Sys (truncatedEnv k cwd) me) (upload md5 fh filename userid) (fun v => v.store ≠ w.store) w := by
  apply meets_bind
  obtain ⟨_,v,run,rfl,same⟩ := @can_savefile k cwd me w md5 fh userid empty stored
  refine ⟨_,v,run,meets_first (meets_call (r := true) (.inl ⟨rfl,rfl⟩) ?_)⟩
  intro unchanged
  have tables := congrArg (fun s => s.table.length) (unchanged.trans same.symm)
  simp at tables

theorem meets_download (served : ¬ NotServed k cwd w.store fh filename userid) :
    Meets (Sys (truncatedEnv k cwd) me) (downloadfile fh filename userid) (fun v => v.store ≠ w.store) w := by
  unfold NotServed at served
  push Not at served
  obtain ⟨some,whole,absent,opens⟩ := served
  obtain ⟨list,items⟩ : ∃ list, ((selected w.store.table userid (toUnsigned fh.dirid) filename).map
      Row.cells).mapM Cells.item = .some list := by
    apply mapM_item_some.mpr
    intro c inside null
    obtain ⟨row,selected,rfl⟩ := List.mem_map.mp inside
    exact whole row selected null
  obtain ⟨first,rest,rfl⟩ : ∃ first rest, list = first :: rest := by
    obtain ⟨row,rows,shape⟩ := List.exists_cons_of_ne_nil some
    rw [shape,List.map_cons] at items
    obtain ⟨first,rest,_,_,same⟩ := mapM_item_cons items
    exact ⟨first,rest,same⟩
  apply meets_bind
  refine can_bind (can_ask ⟨rfl,.inl ⟨_,rfl,.refl _⟩⟩ ?_)
  dsimp only [After]
  rw [items]
  apply can_ret
  refine meets_first (meets_call (r := .some (resolve cwd filename)) (.inl ⟨rfl,opens,rfl⟩) ?_)
  intro unchanged
  have created : w.store.files.create (resolve cwd filename) (resolve cwd filename) = none :=
    (congrFun (congrArg Store.files unchanged) _).trans absent
  rw [Files.create_self] at created
  cases created

end harmful

section request
variable {md5 : Bytes → Digest} {beyond : Bytes} {userid : UInt64}

/-- With a length that no array has, the call comes to what C++ leaves open. -/
theorem can_undefined (live : SessionOf w.store.redis.keys (uuidOf (recordRead w.conn) beyond) userid)
    (bad : ¬ (0 ≤ namelenOf (recordRead w.conn) ∧ namelenOf (recordRead w.conn) + 1 < 2 ^ 31)) :
    Can (Sys (truncatedEnv k cwd) me) (process md5) (fun out _ => out = .error .undefined) w := by
  refine can_bind (can_receive_end _ (.inr (.inr rfl)) ?_)
  refine can_bind (can_ask (r := beyond) rfl ?_)
  refine can_bind (can_validate (fun _ _ _ _ => .inl) live (can_bind (can_send _ _ ?_)))
  dsimp only [After]
  rw [if_pos rfl]
  split_ifs with good
  · exact absurd good bad
  · exact can_throw rfl

theorem meets_process (truncated : Truncated w.conn)
    (live : SessionOf w.store.redis.keys (uuidOf (recordRead w.conn) beyond) userid)
    (low : 0 ≤ namelenOf (recordRead w.conn)) (high : namelenOf (recordRead w.conn) + 1 < 2 ^ 31)
    (room : k.arrays (namelenOf (recordRead w.conn) + 1).toNat)
    (effect : ¬ if (headerRead w.conn).upload then NotStored k md5 w.store (headerRead w.conn) userid
      else NotServed k cwd w.store (headerRead w.conn) (nameRead w.conn) userid) :
    Meets (Sys (truncatedEnv k cwd) me) (process md5) (fun v => v.store ≠ w.store) w := by
  obtain ⟨conn,⟨redis,table,files⟩⟩ := w
  have ends {c : Conn} {n : Nat} : n ≤ c.input.length ∨ c.ended = true ∨
      (truncatedEnv k cwd).readFails {c with input := []} := .inr (.inr rfl)
  have forty : (toInt (40 : Nat)).toNat = 40 := rfl
  apply meets_bind
  apply can_receive_end _ ends
  refine meets_bind (can_ask (r := beyond) rfl ?_)
  have allows (s : Redis.State) (c : Command) (r : Except RedisError c.Reply) (s' : Redis.State)
      (executed : typed s c r s') : (truncatedEnv k cwd).redis s c r s' := .inl executed
  apply meets_bind
  apply can_validate allows live
  apply meets_bind
  apply can_send
  dsimp only [After]
  rw [if_pos rfl,if_pos ⟨low,high⟩]
  refine meets_bind (can_ask (r := true) ⟨rfl,.inl ⟨rfl,room⟩⟩ ?_)
  dsimp only [After]
  rw [if_pos rfl]
  apply meets_bind
  apply can_receive_end _ ends
  apply meets_bind
  apply can_receive_end _ ends
  have bound : namelenOf (recordRead conn) < 2 ^ 31 := by
    dsimp only at high
    omega
  have length : toInt (namelenOf (overlay (zeros sizeofDatauuid) 0 (conn.input.take sizeofDatauuid))) =
      namelenOf (recordRead conn) := toInt_eq_self low bound
  have nothing := nothing_left truncated
  have header := header_read conn
  dsimp only [After,sizeofDatauuid,sizeofFileheader] at length nothing header ⊢
  rw [forty,length,header]
  split_ifs at effect with wanted
  · rw [if_pos wanted]
    exact meets_upload nothing effect
  · rw [if_neg wanted]
    exact meets_download effect

/-- Only a length that no array has brings a call to what C++ leaves open. -/
theorem undefined_refused {env : Env} {w w' : World} (run : Runs (Sys env me) (process md5) w (.error .undefined) w') :
    ∃ got beyond c userid s, Received env w.conn sizeofDatauuid got c ∧
      Session env w.store.redis (uuidOf (filled sizeofDatauuid got) beyond) userid s ∧
      ¬ (0 ≤ namelenOf (filled sizeofDatauuid got) ∧ namelenOf (filled sizeofDatauuid got) + 1 < 2 ^ 31) := by
  generalize ends : Except.error (α := Unit) Halt.undefined = out at run
  cases process_cases run with
  | refused refused =>
    cases refused with
    | badLength record session _ bad => exact ⟨_,_,_,_,_,record,session,bad⟩
    | failed | unknown | notNumber | noRoom => cases ends
  | upload _ _ done =>
    cases done with
    | notSaved saved =>
      cases ends
      cases saved with
      | unanswered check => cases check
    | notAdded => cases ends
    | added => rename_i out _ _ _ _ _ _; cases out <;> cases ends
  | download _ _ done => cases done <;> cases ends

end request

end limited

/-- A request that is cut short is without effect exactly if what has come of it is harmless. -/
theorem truncated_harmless_iff {k : Kernel} {cwd : File} {me : Nat} {md5 : Bytes → Digest} {w : World}
    (truncated : Truncated w.conn) : WithoutEffect k cwd me md5 w ↔ Harmless k cwd md5 w := by
  constructor
  · intro without
    have bounded : ∀ beyond userid, SessionOf w.store.redis.keys (uuidOf (recordRead w.conn) beyond) userid →
        0 ≤ namelenOf (recordRead w.conn) ∧ namelenOf (recordRead w.conn) + 1 < 2 ^ 31 := by
      intro beyond userid live
      by_contra bad
      obtain ⟨out,w',run,ends⟩ := @can_undefined k cwd me w md5 beyond userid live bad
      exact without.defined out w' run ends
    refine ⟨bounded,fun beyond userid live room => ?_⟩
    by_contra effect
    obtain ⟨low,high⟩ := bounded beyond userid live
    obtain ⟨p',w',reached,changed⟩ := @meets_process k cwd me w md5 _ _ truncated live low high room effect
    exact changed (without.unchanged p' w' reached)
  · intro harmless
    constructor
    · intro p' w' reached
      exact reaches_keeps (K := fun v => v.store = w.store)
        (fun v c r v' same stays answered => (stays r v' answered).trans same) rfl
        (wp_process_harmless truncated harmless) reached
    · rintro _ w' run rfl
      obtain ⟨got,beyond,c,userid,s,record,session,bad⟩ := undefined_refused run
      obtain ⟨rfl,-⟩ := record.all fun c empty => empty
      exact bad (harmless.bounded beyond userid (session_failing (fun _ _ _ _ => id) session).1)

section sample

/-- An upload of the second user, cut behind the flag of its file header. -/
def sampleCut : Conn where
  input := recordOf (ascii "s2") 1 ++ (ascii "f" ++ (Fileheader.bytes ⟨0,sampleDigest,1,true,5⟩).take 29)
  ended := true
  output := []

theorem sampleCut_truncated : Truncated sampleCut := by
  unfold Truncated
  decide +kernel

theorem sample_truncated_iff : WithoutEffect .ample [] 0 sampleMd5 ⟨sampleCut,sampleStored⟩ ↔
    Harmless .ample [] sampleMd5 ⟨sampleCut,sampleStored⟩ :=
  truncated_harmless_iff sampleCut_truncated

theorem cut_request_inserts : ¬ ∀ (k : Kernel) (cwd : File) (me : Nat) (md5 : Bytes → Digest) (w : World),
    Truncated w.conn → ∀ p' w', Reaches (Sys (truncatedEnv k cwd) me) (process md5) w p' w' →
      w'.store = w.store := by
  intro claimed
  have key : uuidOf (recordRead sampleCut) [] = ascii "s2" := by decide +kernel
  have held : sampleStored.redis.keys (ascii "s2") =
      some ⟨.hash [(ascii "username",ascii "bob"),(ascii "userid",ascii "2")],false⟩ := by decide +kernel
  have session : SessionOf sampleStored.redis.keys (uuidOf (recordRead sampleCut) []) 2 := by
    rw [key]
    exact ⟨_,_,held,by simp,by decide⟩
  have known : ¬ NotStored .ample sampleMd5 sampleStored (headerRead sampleCut) 2 :=
    fun stored => stored.1 (by decide +kernel)
  have wanted : (headerRead sampleCut).upload = true := by decide +kernel
  obtain ⟨p',w',reached,changed⟩ := @meets_process .ample [] 0 ⟨sampleCut,sampleStored⟩ sampleMd5 [] 2
    sampleCut_truncated session (by decide +kernel) (by decide +kernel) trivial (by rwa [if_pos wanted])
  exact changed (claimed _ _ _ _ _ sampleCut_truncated p' w' reached)

end sample

end FilediskServer.TruncatedRequests
