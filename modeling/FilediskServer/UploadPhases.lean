import FilediskServer.UploadHistory
import FilediskServer.Library.Threads

/-! Calls of `process` that upload at the same time. Each has its own connection; Redis, the
table and the disk are shared, and nothing but the disk is relied on. -/
namespace FilediskServer.UploadPhases
open Interaction Bytes CusInfo Redis Filetree Disk Calls SocketIO FileTask FileTaskRuns UploadHistory

/-- How far an upload has come with a path that it was told is not there. -/
inductive Phase
  | asking
  | absent (path : Bytes)
  | opened (path : Bytes)
  | written (path : Bytes)
  | recorded (path : Bytes)
  deriving DecidableEq

def Phase.next : Phase → Event signature → Phase
  | .asking,⟨.query (.countPath path),some 0⟩ => .absent path
  | .absent path,⟨.openFile _,_⟩ => .opened path
  | .opened path,⟨.writeFile _ _,_⟩ => .written path
  | .written path,⟨.query (.insert ..),true⟩ => .recorded path
  | phase,_ => phase

def Phase.Pending (phase : Phase) (path : Bytes) : Prop :=
  phase = .absent path ∨ phase = .opened path ∨ phase = .written path

def Phase.Wrote (phase : Phase) (path : Bytes) : Prop := phase = .written path ∨ phase = .recorded path

/-- The disk does what it is asked, and reads do not fail before the file header is read. -/
def anyEnv (cwd : File) (u : Upload) : Env :=
  {uploadEnv cwd u with redis := fun _ _ _ _ => True, insertFails := True}

/-- The answers to call number `i`, and the phase it is in. -/
def uploading (cwd : File) (u : Upload) (i : Nat) : Handler signature ((Conn × Phase) × Store) :=
  fun w c r w' => Sys (anyEnv cwd u) i ⟨w.1.1,w.2⟩ c r ⟨w'.1.1,w'.2⟩ ∧ w'.1.2 = w.1.2.next ⟨c,r⟩

/-- The order of an upload's calls, as far as the table and the disk go. -/
def InOrder (md5 : Bytes → Digest) (v : Conn × Phase) : Call → Prop
  | .query (.countPath path) => v.2 = .asking ∧ ∃ d, path = hashPath d
  | .openFile path => v.2 = .absent path ∧ ∃ d, path = hashPath d
  | .writeFile fd b => v.2 = .opened (hashPath (md5 b)) ∧ fd = some (hashFile (md5 b))
  | .query (.insert _ _ _ path _ _) => v.2 = .asking ∨ v.2 = .written path
  | _ => True

def NotOpened (_ : Except Halt Unit) (v : Conn × Phase) : Prop := ∀ path, v.2 ≠ .opened path

section calls
variable {cwd : File} {u : Upload} {i : Nat} {md5 : Bytes → Digest} {c : Conn} {phase : Phase}

theorem wp_asked {o : Call} {post : Except Halt o.Res → Conn × Phase → Prop}
    (allowed : InOrder md5 (c,phase) o)
    (after : ∀ r c' s s', Sys (anyEnv cwd u) i ⟨c,s⟩ o r ⟨c',s'⟩ →
      post (.ok r) (c',phase.next ⟨o,r⟩)) :
    Wp (Alone (uploading cwd u i)) (InOrder md5) (ask o) post (c,phase) := by
  refine ⟨allowed,?_⟩
  rintro r ⟨c',phase'⟩ ⟨s,s',answered,rfl⟩
  exact after r c' s s' answered

def OnSocket (_ : World) : Call → Prop
  | .read _ => True
  | .write (.buf _) _ => True
  | _ => False

/-- What is known of reading and writing on a socket holds among other uploads, which
share no connection. -/
theorem wp_onSocket {α : Type} {p : Job α} {post : Except Halt α → Conn × Phase → Prop}
    (holds : ∀ s, Wp (Sys (anyEnv cwd u) i) OnSocket p (fun out w => post out (w.conn,phase)) ⟨c,s⟩) :
    Wp (Alone (uploading cwd u i)) (InOrder md5) p post (c,phase) := by
  have transferred := @wp_transfer _ _ _ _ _ _ (Alone (uploading cwd u i)) _ (InOrder md5)
    (fun (w : World) v => v = (w.conn,phase)) (fun w v o related on => ?_) p
    ⟨c,⟨⟨fun _ => none,[]⟩,[],fun _ => none⟩⟩ (c,phase) _ (holds _) rfl
  · refine wp_mono ?_ transferred
    rintro out _ ⟨w,rfl,reached⟩
    exact reached
  · subst related
    cases o with
    | read n =>
      refine ⟨trivial,?_⟩
      rintro r ⟨c',phase'⟩ ⟨g,g',answered,moved⟩
      obtain rfl : phase' = phase := moved.trans (by cases phase <;> rfl)
      cases r with
      | data b =>
        obtain ⟨some,fits,rest,input,same⟩ := answered
        cases same
        exact ⟨{w with conn := {w.conn with input := rest}},⟨some,fits,rest,input,rfl⟩,rfl⟩
      | eof => obtain ⟨empty,ended,same⟩ := answered; cases same; exact ⟨w,⟨empty,ended,rfl⟩,rfl⟩
      | eintr => cases answered; exact ⟨w,rfl,rfl⟩
      | failed => obtain ⟨fails,same⟩ := answered; cases same; exact ⟨w,⟨fails,rfl⟩,rfl⟩
    | write source n =>
      cases source with
      | mapped => exact on.elim
      | buf b =>
        refine ⟨trivial,?_⟩
        rintro r ⟨c',phase'⟩ ⟨g,g',answered,moved⟩
        obtain rfl : phase' = phase := moved.trans (by cases phase <;> rfl)
        cases r with
        | count k =>
          obtain ⟨some,fits,ready,same⟩ := answered
          cases same
          exact ⟨{w with conn := {w.conn with output := w.conn.output ++ b.take k}},
            ⟨some,fits,ready,rfl⟩,rfl⟩
        | eintr => cases answered; exact ⟨w,rfl,rfl⟩
        | failed => obtain ⟨why,same⟩ := answered; cases same; exact ⟨w,⟨why,rfl⟩,rfl⟩
    | redis | query | openFile | writeFile | mmap | munmap | close | alloc | array | uninit | beyond =>
      exact on.elim

theorem wp_command {command : Command} {post : Except Halt command.Reply → Conn × Phase → Prop}
    (after : ∀ reply, post (.ok reply) (c,phase)) (thrown : ∀ e, post (.error (.redis e)) (c,phase)) :
    Wp (Alone (uploading cwd u i)) (InOrder md5) (FileTask.redis command) post (c,phase) := by
  refine wp_bind (wp_asked trivial fun r c' s s' answered => ?_)
  obtain ⟨_,_,same⟩ := answered
  cases same
  have unmoved : phase.next ⟨.redis command,r⟩ = phase := by cases phase <;> rfl
  rw [unmoved]
  cases r with
  | error e => exact thrown e
  | ok reply => exact after reply

theorem wp_check {path : Bytes} {userid : UInt64} {post : Except Halt Bool → Conn × Phase → Prop}
    (digest : ∃ d, path = hashPath d) (known : post (.ok true) (c,.asking))
    (absent : post (.ok false) (c,.absent path)) (failed : ∀ e, post (.error e) (c,.asking)) :
    Wp (Alone (uploading cwd u i)) (InOrder md5) (isfileexits path userid) post (c,.asking) := by
  refine wp_bind (wp_command (fun cached => ?_) fun e => failed _)
  dsimp only [After]
  split_ifs
  · exact known
  · refine wp_bind (wp_asked ⟨rfl,digest⟩ fun count c' s s' answered => ?_)
    cases answered.1
    match count with
    | none => exact failed _
    | some 0 => exact absent
    | some (n + 1) =>
      dsimp only [After]
      split_ifs
      · have positive : decide (n + 1 > 0) = true := by simp
        rw [positive]
        exact known
      · exact failed _

variable {fh : Fileheader}

theorem wp_body {path b : Bytes} {post : Except Halt Bytes → Conn × Phase → Prop}
    (after : ∀ c' b, md5 b = fh.md5 → post (.ok b) (c',.absent path)) :
    Wp (Alone (uploading cwd u i)) (InOrder md5) (receiveChecked md5 fh b) post (c,.absent path) := by
  refine ⟨fun _ v => v.2 = .absent path,rfl,?_⟩
  rintro b ⟨c,_⟩ rfl
  refine wp_bind (wp_onSocket fun s => wp_receive b _ (fun _ _ => trivial) fun got c' _ => ?_)
  dsimp only [After]
  split_ifs with right
  · exact after c' _ right
  · refine wp_bind (wp_onSocket fun s => wp_send _ _ (fun _ _ _ _ => trivial) fun sent _ => ?_)
    exact rfl

theorem wp_saving {userid : UInt64} {post : Except Halt Bytes → Conn × Phase → Prop}
    (known : ∀ c, post (.ok (hashPath fh.md5)) (c,.asking))
    (stored : ∀ c, post (.ok (hashPath fh.md5)) (c,.written (hashPath fh.md5)))
    (failed : ∀ e c phase, NotOpened (.error e) (c,phase) → post (.error e) (c,phase)) :
    Wp (Alone (uploading cwd u i)) (InOrder md5) (savefile md5 fh userid) post (c,.asking) := by
  refine wp_bind (wp_check ⟨fh.md5,rfl⟩ ?_ ?_ fun e => failed e _ _ nofun)
  · refine wp_bind (wp_onSocket fun s => wp_send _ _ (fun _ _ _ _ => trivial) fun sent _ => ?_)
    exact known _
  · refine wp_bind (wp_onSocket fun s => wp_send _ _ (fun _ _ _ _ => trivial) fun sent _ => ?_)
    dsimp only [After]
    rw [if_neg (by simp)]
    split_ifs
    · exact failed _ _ _ nofun
    refine wp_bind (wp_asked trivial fun memory c' s s' answered => ?_)
    match memory with
    | none => exact failed _ _ _ nofun
    | some fresh =>
      apply wp_bind
      apply wp_body
      intro c' b right
      refine wp_bind (wp_asked ⟨rfl,fh.md5,rfl⟩ fun fd c' s s' answered => ?_)
      obtain ⟨opened,_⟩ := answered.resolve_right fun fails => fails.2.1.elim id fun closed => closed trivial
      have file : fd = some (hashFile (md5 b)) := by rw [opened,right]; exact congrArg some (resolve_hashPath _ _)
      refine wp_bind (wp_asked ⟨by rw [right]; rfl,file⟩ fun _ c' s s' answered => ?_)
      refine wp_bind (wp_asked trivial fun _ c' s s' answered => ?_)
      exact stored c'

theorem wp_uploadOrder {filename : Bytes} {userid : UInt64} :
    Wp (Alone (uploading cwd u i)) (InOrder md5) (upload md5 fh filename userid) NotOpened
      (c,.asking) := by
  -- Once the row is in or lost, only Redis is called.
  have finish (phase : Phase) (free : ∀ path, phase ≠ .opened path) (c : Conn) :
      Wp (Alone (uploading cwd u i)) (InOrder md5) (do
        FileTask.redis (.sadd (decimal userid.toNat) (hashPath fh.md5))
        FileTask.redis (.setex (decimal userid.toNat) (4 * 60 * 60) (hashPath fh.md5))) NotOpened
        (c,phase) := by
    refine wp_bind (wp_command (fun _ => ?_) fun e => free)
    exact wp_command (fun _ => free) fun e => free
  refine wp_bind (wp_saving (fun c => ?_) (fun c => ?_) fun e c phase free => free)
  · refine wp_bind (wp_asked (.inl rfl) fun done c' s s' answered => ?_)
    exact finish _ (by cases done <;> exact nofun) c'
  · refine wp_bind (wp_asked (.inr rfl) fun done c' s s' answered => ?_)
    exact finish _ (by cases done <;> exact nofun) c'

theorem wp_validating {uuid : Bytes} {post : Except Halt (Bool × UInt64) → Conn × Phase → Prop}
    (after : ∀ result, post result (c,phase)) :
    Wp (Alone (uploading cwd u i)) (InOrder md5) (validate uuid) post (c,phase) := by
  refine wp_bind (wp_command (fun fields => ?_) fun e => after _)
  dsimp only [After]
  split_ifs
  · split
    · exact after _
    · exact after _
  · exact after _

theorem wp_uploading (output : Bytes) :
    Wp (Alone (uploading cwd u i)) (InOrder md5) (process md5) NotOpened
      (u.conn output,.asking) := by
  have reads (c : Conn) (more : u.body.length < c.input.length) : ¬ (anyEnv cwd u).readFails c := by
    simp [anyEnv,uploadEnv,more]
  refine wp_bind (wp_onSocket fun s => wp_receive _ _ (fun _ _ => trivial) fun got c₁ record => ?_)
  obtain ⟨rfl,rfl,-⟩ := record.whole rfl u.recordSize fun c more => reads c
    (by simp only [List.length_append] at more; omega)
  refine wp_bind (wp_asked trivial fun beyond c' s s' answered => ?_)
  cases answered
  apply wp_bind
  apply wp_validating
  intro result
  cases result with
  | error e =>
    intro path opened
    cases opened
  | ok found =>
    obtain ⟨valid,userid⟩ := found
    refine wp_bind (wp_onSocket fun s => wp_send _ _ (fun _ _ _ _ => trivial) fun sent _ => ?_)
    have whole := filled_of_length u.recordSize
    unfold filled at whole
    dsimp only [After]
    rw [whole]
    split_ifs with accepted bounds
    · refine wp_bind (wp_asked trivial fun fits c' s s' answered => ?_)
      cases answered.1
      cases fits with
      | false =>
        intro path opened
        cases opened
      | true =>
      refine wp_bind (wp_onSocket fun s => wp_receive _ _ (fun _ _ => trivial) fun name c₂ named => ?_)
      rw [toInt_eq_self bounds.1 (by omega)] at named
      obtain ⟨rfl,rfl,-⟩ := named.whole rfl u.nameSize fun c more => reads c
        (by simp only [List.length_append] at more; omega)
      refine wp_bind (wp_onSocket fun s => wp_receive _ _ (fun _ _ => trivial) fun header c₃ headed => ?_)
      obtain ⟨rfl,rfl,-⟩ := headed.whole rfl u.headerSize reads
      have header := filled_of_length u.headerSize
      unfold filled at header
      dsimp only [After]
      rw [header,if_pos u.wanted]
      exact wp_uploadOrder
    · intro path opened
      cases opened
    · intro path opened
      cases opened

inductive StepEffect (md5 : Bytes → Digest) (i : Nat) (phase phase' : Phase) (s s' : Store) : Prop
  | quiet (same : phase' = phase) (files : s'.files = s.files) (table : s.table <+: s'.table)
  | absent (d : Digest) (before : phase = .asking) (after : phase' = .absent (hashPath d))
      (unknown : pathCount s.table (hashPath d) = 0) (files : s'.files = s.files)
      (table : s'.table = s.table)
  | opened (d : Digest) (before : phase = .absent (hashPath d)) (after : phase' = .opened (hashPath d))
      (files : s'.files = s.files.create (hashFile d)) (table : s'.table = s.table)
  | written (b : Bytes) (before : phase = .opened (hashPath (md5 b)))
      (after : phase' = .written (hashPath (md5 b)))
      (files : s'.files = s.files.append (hashFile (md5 b)) ⟨i,b⟩) (table : s'.table = s.table)
  | recorded (row : Row) (before : phase = .written row.hashfilepath)
      (after : phase' = .recorded row.hashfilepath) (files : s'.files = s.files)
      (table : s'.table = s.table ++ [row])

theorem answer_effect {o : Call} {r : o.Res} {v v' : Conn × Phase} {s s' : Store}
    (allowed : InOrder md5 v o) (answered : uploading cwd u i (v,s) o r (v',s')) :
    StepEffect md5 i v.2 v'.2 s s' := by
  obtain ⟨c,phase⟩ := v
  obtain ⟨c',phase'⟩ := v'
  obtain ⟨answered,rfl⟩ := answered
  have quiet (still : phase.next ⟨o,r⟩ = phase) (files : s'.files = s.files) (table : s.table <+: s'.table) :
      StepEffect md5 i phase (phase.next ⟨o,r⟩) s s' := .quiet still files table
  have unchanged (still : phase.next ⟨o,r⟩ = phase) (same : s' = s) :
      StepEffect md5 i phase (phase.next ⟨o,r⟩) s s' := by
    subst same
    exact quiet still rfl (List.prefix_refl _)
  cases o with
  | redis command =>
    obtain ⟨_,_,same⟩ := answered
    cases same
    exact quiet (by cases phase <;> rfl) rfl (List.prefix_refl _)
  | query statement =>
    cases statement with
    | insert userid filepath index path dirid filesize =>
      rcases answered with ⟨rfl,same⟩ | ⟨rfl,_,same⟩
      · cases same
        rcases allowed with rfl | rfl
        · exact .quiet rfl rfl (List.prefix_append _ _)
        · exact .recorded _ rfl rfl rfl rfl
      · cases same
        exact .quiet (by cases phase <;> rfl) rfl (List.prefix_refl _)
    | selectFiles =>
      cases answered.1
      exact .quiet (by cases phase <;> rfl) rfl (List.prefix_refl _)
    | countPath path =>
      obtain ⟨rfl,d,rfl⟩ := allowed
      obtain ⟨same,counted⟩ := answered
      cases same
      match r with
      | none => exact .quiet rfl rfl (List.prefix_refl _)
      | some (n + 1) => exact .quiet rfl rfl (List.prefix_refl _)
      | some 0 =>
        rcases counted with zero | ⟨none,_⟩
        · exact .absent d rfl rfl (Option.some.inj zero).symm rfl rfl
        · cases none
  | openFile path =>
    obtain ⟨rfl,d,rfl⟩ := allowed
    rcases answered with ⟨_,_,same⟩ | ⟨_,fails,_⟩
    · cases same
      refine .opened d rfl rfl ?_ rfl
      rw [resolve_hashPath]
    · exact absurd trivial (fails.resolve_left id)
  | writeFile fd b =>
    obtain ⟨rfl,rfl⟩ := allowed
    rcases answered with ⟨_,same⟩ | ⟨fails,_⟩
    · cases same
      exact .written b rfl rfl rfl rfl
    · exact absurd trivial (fails.resolve_left id)
  | read | write | mmap | munmap | close | alloc | array | uninit | beyond =>
    apply unchanged (by cases phase <;> rfl)
    cases sys_changes answered <;> rfl

end calls

end FilediskServer.UploadPhases
