import FilediskServer.TruncatedRequests

/-! Uploads of content that is not known, when storing it goes wrong. What `open`, `write` and
the insert return is looked at by nobody, so the path is recorded as if all had gone well. -/
namespace FilediskServer.FailedStores
open Interaction Bytes CusInfo Redis Filetree Disk Calls SocketIO FileTask FileTaskRuns UploadHistory
open TruncatedRequests

/-- How the three operations end: -1 or a descriptor, -1 or a count, success or an error. -/
structure Outcomes where
  opened : Bool
  written : Option Nat
  inserted : Bool

namespace Outcomes

def leaves (o : Outcomes) (me : Nat) (files : Files) (f : File) (b : Bytes) : Files :=
  if o.opened then
    match o.written with
    | none => files.create f
    | some n => (files.create f).append f ⟨me,b.take n⟩
  else files

def Stored (o : Outcomes) (fh : Fileheader) : Prop :=
  o.opened = true ∧ ∃ n : Nat, o.written = some n ∧ fh.filelen ≤ n

def Fails (o : Outcomes) (fh : Fileheader) : Prop := ¬ (o.Stored fh ∧ o.inserted = true)

/-- An answer that ends the operation so. -/
def Permits (o : Outcomes) (me : Nat) (w : World) : (c : Call) → c.Res → World → Prop
  | .openFile _, fd, _ => Option.isSome fd = o.opened
  | .writeFile (some f) b, _, w' => w'.store.files =
      match o.written with
      | none => w.store.files
      | some n => w.store.files.append f ⟨me,b.take n⟩
  | .query (.insert ..), done, _ => done = o.inserted
  | _, _, _ => True

end Outcomes

/-- Nothing fails but the disk and the insert. -/
def storeEnv (cwd : File) : Env := ⟨typed,cwd,.ample,fun _ => False,False,True,True,False,False⟩

def Storing (o : Outcomes) (cwd : File) (me : Nat) : Handler signature World := fun w c r w' =>
  Sys (storeEnv cwd) me w c r w' ∧ o.Permits me w c r w'

/-- What the upload has made of the store: all but the insert is done whatever the disk did. -/
structure Recorded (o : Outcomes) (cwd : File) (me : Nat) (md5 : Bytes → Digest) (fh : Fileheader)
    (filename : Bytes) (userid : UInt64) (s s' : Store) : Prop where
  table : s'.table = if o.inserted then s.table ++ [newRow fh filename userid] else s.table
  own : s'.redis.keys (decimal userid.toNat) = some ⟨.string (hashPath fh.md5),true⟩
  other : ∀ key, key ≠ decimal userid.toNat → s'.redis.keys key = s.redis.keys key
  files : ∃ b : Bytes, b.length = fh.filelen.toNat ∧ md5 b = fh.md5 ∧
    s'.files = o.leaves me s.files (resolve cwd (hashPath fh.md5)) b

section storing
variable {o : Outcomes} {cwd : File} {me : Nat} {md5 : Bytes → Digest} {fh : Fileheader} {filename : Bytes}
  {userid : UInt64} {w : World}

theorem wp_storing {α : Type} {p : Job α} {post : Except Halt α → World → Prop}
    (holds : Wp (Sys (storeEnv cwd) me) (fun _ _ => True) p post w) :
    Wp (Storing o cwd me) (fun _ _ => True) p post w :=
  wp_within (fun _ _ _ _ _ answered => answered.1) holds

theorem exists_redis {s : Store} {path : Bytes} {out : Except Halt Bool} {r : Redis.State}
    (check : Exists (storeEnv cwd) s path userid out r) : r = s.redis := by
  have reads : (exec s.redis.keys (.sismember (decimal userid.toNat) path)).2 = s.redis.keys ∧
      record s.redis.added (.sismember (decimal userid.toNat) path) = s.redis.added :=
    ⟨(exec_reads _ (decimal userid.toNat) path).2,rfl⟩
  cases check with
  | failed asked | cached asked | counted asked | tooMany asked | noResult asked =>
    exact failing_reads reads (.inl asked)

theorem written_files {env : Env} {fd : Option File} {b : Bytes} {w' : World} {r : Unit}
    (answered : Sys env me w (.writeFile fd b) r w') :
    ∃ files, w' = ⟨w.conn,{w.store with files := files}⟩ := by
  cases sys_changes answered with
  | nothing => exact ⟨w.store.files,rfl⟩
  | writeFile files => exact ⟨files,rfl⟩

theorem wp_savefile_storing (new : known w.store (hashPath fh.md5) userid = some false) :
    Wp (Storing o cwd me) (fun _ _ => True) (savefile md5 fh userid) (fun out w' => ∀ path, out = .ok path →
      path = hashPath fh.md5 ∧ ∃ b : Bytes, b.length = fh.filelen.toNat ∧ md5 b = fh.md5 ∧
        w'.store = {w.store with files := o.leaves me w.store.files (resolve cwd path) b}) w := by
  apply wp_bind
  apply wp_storing
  apply wp_isfileexits (fun _ _ _ => trivial) trivial
  rintro (e | exist) r check
  · rintro _ ⟨⟩
  obtain rfl := exists_redis check
  obtain rfl : exist = false := by
    have answer := exists_known (fun _ _ _ _ => .inl) check
    exact Option.some.inj (answer.symm.trans new)
  apply wp_bind
  apply wp_storing
  apply wp_send _ _ (fun _ _ _ _ => trivial)
  intro sent answer
  simp only [After,Bool.false_eq_true,if_false]
  split_ifs with negative
  · rintro _ ⟨⟩
  refine wp_bind ⟨trivial,?_⟩
  rintro memory w' ⟨⟨rfl,⟨fresh,rfl,size,-⟩ | ⟨rfl,fails⟩⟩,-⟩
  · apply wp_bind
    apply wp_storing
    apply wp_receiveChecked (fun _ _ _ => trivial)
    intro b c checked
    have length := checked_size checked (by omega) size
    have right := checked_right checked
    have kept (files : Files) (same : files = o.leaves me w.store.files (resolve cwd (hashPath fh.md5)) b) :
        ∀ path, Except.ok (hashPath fh.md5) = (.ok path : Except Halt Bytes) →
          path = hashPath fh.md5 ∧ ∃ b : Bytes, b.length = fh.filelen.toNat ∧ md5 b = fh.md5 ∧
            {w.store with files := files} =
              {w.store with files := o.leaves me w.store.files (resolve cwd path) b} := by
      rintro _ ⟨⟩
      exact ⟨rfl,b,length,right,by rw [same]⟩
    refine wp_bind ⟨trivial,?_⟩
    rintro fd w' ⟨⟨rfl,-,rfl⟩ | ⟨rfl,_,rfl⟩,opened⟩
    · refine wp_bind ⟨trivial,?_⟩
      rintro _ w' ⟨answered,written⟩
      obtain ⟨files,rfl⟩ := written_files answered
      refine wp_bind ⟨trivial,?_⟩
      rintro _ w' ⟨rfl,-⟩
      apply kept
      rw [Outcomes.leaves,if_pos (show o.opened = true from opened.symm)]
      exact written
    · -- The write to descriptor -1 does nothing, and the path is returned all the same.
      have closed : o.opened = false := opened.symm
      refine wp_bind ⟨trivial,?_⟩
      rintro _ w' ⟨rfl,-⟩
      refine wp_bind ⟨trivial,?_⟩
      rintro _ w' ⟨rfl,-⟩
      apply kept
      rw [Outcomes.leaves,closed]
      rfl
  · exact absurd trivial (fails.resolve_left id)

/-- An upload of new content records its path whatever became of the store. -/
theorem upload_records (new : known w.store (hashPath fh.md5) userid = some false) {w' : World}
    (run : Runs (Storing o cwd me) (upload md5 fh filename userid) w (.ok ()) w') :
    Recorded o cwd me md5 fh filename userid w.store w'.store := by
  have records : Wp (Storing o cwd me) (fun _ _ => True) (upload md5 fh filename userid)
      (fun out w' => out = .ok () → Recorded o cwd me md5 fh filename userid w.store w'.store) w := by
    apply wp_bind
    refine wp_mono ?_ (wp_savefile_storing new)
    rintro (e | path) ⟨c,s⟩ saved
    · rintro ⟨⟩
    obtain ⟨rfl,b,length,right,rfl⟩ := saved path rfl
    refine wp_bind ⟨trivial,?_⟩
    rintro done v ⟨answered,inserted⟩
    obtain ⟨table,rfl,rows⟩ : ∃ table,
        v = ⟨c,⟨w.store.redis,table,o.leaves me w.store.files (resolve cwd (hashPath fh.md5)) b⟩⟩ ∧
          table = if o.inserted then w.store.table ++ [newRow fh filename userid] else w.store.table := by
      have ended : o.inserted = done := inserted.symm
      rw [ended]
      rcases answered with ⟨rfl,rfl⟩ | ⟨rfl,_,rfl⟩
      · exact ⟨_,rfl,rfl⟩
      · exact ⟨_,rfl,rfl⟩
    refine wp_bind (wp_storing (wp_redis trivial ?_ fun _ _ _ => nofun))
    rintro _ r ⟨ok,rfl⟩
    refine wp_storing (wp_redis trivial ?_ fun _ _ _ => nofun)
    rintro _ r ⟨-,rfl⟩ -
    refine ⟨rows,Function.update_self ..,fun key other => ?_,b,length,right,rfl⟩
    have apart : (Command.sadd (decimal userid.toNat) (hashPath fh.md5)).key ≠ key := Ne.symm other
    exact (Function.update_of_ne other ..).trans (exec_other apart)
  exact wp_runs run records rfl

end storing

/-- No row names the path, and no set has got it as a member. -/
structure Unrecorded (s s' : Store) (path : Bytes) : Prop where
  rows : ∀ row ∈ s'.table, row.hashfilepath ≠ path
  members : ∀ key, path ∈ members s'.redis.keys key → path ∈ members s.redis.keys key

/-- A user for whom the content was not there before is told so again. -/
def AskedAgain (cwd : File) (s s' : Store) (path : Bytes) (user : UInt64) : Prop :=
  known s path user = some false → ∀ c me out w',
    Runs (Sys (calm cwd) me) (isfileexits path user) ⟨c,s'⟩ out w' → out = .ok false

section answers
variable {cwd : File} {me : Nat} {s s' : Store} {path : Bytes} {user : UInt64}

theorem known_absent (new : known s path user = some false) : ∀ row ∈ s.table, row.hashfilepath ≠ path := by
  intro row inside same
  have counted := pathCount_pos.mpr ⟨row,inside,same⟩
  unfold known at new
  split at new
  · cases new
  · split_ifs at new
    simp [counted] at new
  · cases new

theorem isfileexits_known {b : Bool} {c : Conn} {out : Except Halt Bool} {w' : World}
    (answer : known s path user = some b)
    (run : Runs (Sys (calm cwd) me) (isfileexits path user) ⟨c,s⟩ out w') : out = .ok b := by
  have answers : Wp (Sys (calm cwd) me) (fun _ _ => True) (isfileexits path user)
      (fun out _ => out = .ok b) ⟨c,s⟩ := by
    apply wp_isfileexits (fun _ _ _ => trivial) trivial
    intro out r check
    unfold known at answer
    cases check with
    | failed asked => rw [← asked.1] at answer; cases answer
    | cached asked => rw [← asked.1] at answer; rw [Option.some.inj answer]
    | counted asked small =>
      rw [← asked.1] at answer
      dsimp only at answer
      rw [if_pos small] at answer
      rw [Option.some.inj answer]
    | tooMany asked large =>
      rw [← asked.1] at answer
      dsimp only at answer large
      rw [if_neg (not_lt.mpr large)] at answer
      cases answer
    | noResult asked fails => exact fails.elim
  have holds := wp_runs run answers
  exact holds

/-- The command for a set is refused for the string that `setex` left. -/
theorem isfileexits_refused {value : Bytes} {c : Conn}
    (own : s.redis.keys (decimal user.toNat) = some ⟨.string value,true⟩) :
    Can (Sys (calm cwd) me) (isfileexits path user)
      (fun out _ => out = .error (.redis .wrongtype)) ⟨c,s⟩ := by
  have refused : (exec s.redis.keys (.sismember (decimal user.toNat) path)).1 = .error .wrongtype := by
    simp only [exec,own]
  exact can_bind (can_bind (can_ask ⟨_,⟨refused.symm,rfl⟩,rfl⟩ (can_throw rfl)))

theorem known_kept (table : s'.table = s.table)
    (same : s'.redis.keys (decimal user.toNat) = s.redis.keys (decimal user.toNat)) :
    known s' path user = known s path user := by
  have answer : (exec s'.redis.keys (.sismember (decimal user.toNat) path)).1 =
      (exec s.redis.keys (.sismember (decimal user.toNat) path)).1 := by
    simp only [exec,same]
    split <;> rfl
  unfold known
  rw [answer,table]

end answers

section failures
variable {o : Outcomes} {cwd : File} {me : Nat} {md5 : Bytes → Digest} {fh : Fileheader} {filename : Bytes}
  {userid : UInt64} {w w' : World}

/-- Without its row an upload leaves nothing that names the path. -/
theorem unrecorded_of_lost (new : known w.store (hashPath fh.md5) userid = some false)
    (recorded : Recorded o cwd me md5 fh filename userid w.store w'.store) (lost : o.inserted = false) :
    Unrecorded w.store w'.store (hashPath fh.md5) ∧
      ∀ user, user ≠ userid → AskedAgain cwd w.store w'.store (hashPath fh.md5) user := by
  have table : w'.store.table = w.store.table := by
    rw [recorded.table,lost]
    rfl
  refine ⟨⟨?_,fun key inside => ?_⟩,fun user apart before c me out v run => ?_⟩
  · rw [table]
    exact known_absent new
  · by_cases own : key = decimal userid.toNat
    · simp [own,members,recorded.own] at inside
    · simpa only [members,recorded.other key own] using inside
  · have other : decimal user.toNat ≠ decimal userid.toNat := by
      intro same
      have value := congrArg digitsValue same
      rw [digitsValue_decimal,digitsValue_decimal] at value
      exact apart (UInt64.toNat_inj.mp value)
    exact isfileexits_known ((known_kept table (recorded.other _ other)).trans before) run

/-- An upload of new content is without trace after a failure exactly when there was none: the
uploader's own key is a string from then on. For everyone else it is so exactly when the insert
failed; what became of the file does not matter. -/
theorem failed_store_iff (new : known w.store (hashPath fh.md5) userid = some false)
    (run : Runs (Storing o cwd me) (upload md5 fh filename userid) w (.ok ()) w') :
    ((o.Fails fh → Unrecorded w.store w'.store (hashPath fh.md5) ∧
        ∀ user, AskedAgain cwd w.store w'.store (hashPath fh.md5) user) ↔
      o.Stored fh ∧ o.inserted = true) ∧
    ((Unrecorded w.store w'.store (hashPath fh.md5) ∧
        ∀ user, user ≠ userid → AskedAgain cwd w.store w'.store (hashPath fh.md5) user) ↔
      o.inserted = false) := by
  have recorded := upload_records new run
  refine ⟨⟨fun claim => ?_,fun done fails => absurd done fails⟩,fun traceless => ?_,
    unrecorded_of_lost new recorded⟩
  · by_contra fails
    obtain ⟨out,v,later,refused⟩ := @isfileexits_refused cwd me w'.store (hashPath fh.md5) userid _ w.conn
      recorded.own
    have told := (claim fails).2 userid new _ _ out v later
    rw [refused] at told
    cases told
  · by_contra inserted
    have table := recorded.table
    rw [Bool.eq_true_of_not_eq_false inserted] at table
    exact traceless.1.rows (newRow fh filename userid) (by simp [table]) rfl

end failures

section sample

def Outcomes.respond (o : Outcomes) (cwd : File) (me : Nat) : Responder signature World := fun w c =>
  match c with
  | .openFile path => if o.opened then Calls.respond cwd me w (.openFile path) else some (none,w)
  | .writeFile (some f) b =>
    match o.written with
    | none => some ((),w)
    | some n => some ((),{w with store := {w.store with files := w.store.files.append f ⟨me,b.take n⟩}})
  | .query (.insert userid filepath index hashfilepath dirid filesize) =>
    if o.inserted then Calls.respond cwd me w (.query (.insert userid filepath index hashfilepath dirid filesize))
    else some (false,w)
  | c => Calls.respond cwd me w c

theorem Outcomes.respond_within (o : Outcomes) (cwd : File) (me : Nat) :
    (o.respond cwd me).Within (Storing o cwd me) := by
  intro w c r w' answered
  have usual (same : Calls.respond cwd me w c = some (r,w')) : Sys (storeEnv cwd) me w c r w' :=
    sys_of_calm (fun _ _ _ => id) (Calls.respond_within cwd me w c r w' same)
  cases c with
  | openFile path =>
    simp only [Outcomes.respond] at answered
    split_ifs at answered with opened
    · exact ⟨usual answered,by cases answered; exact opened.symm⟩
    · cases answered
      exact ⟨.inr ⟨rfl,.inl trivial,rfl⟩,by simpa [Outcomes.Permits] using opened⟩
  | writeFile fd b =>
    cases fd with
    | none => exact ⟨usual answered,trivial⟩
    | some f =>
      simp only [Outcomes.respond] at answered
      cases written : o.written with
      | none =>
        rw [written] at answered
        cases answered
        exact ⟨.inr ⟨.inl trivial,.inl rfl⟩,by simp [Outcomes.Permits,written]⟩
      | some n =>
        rw [written] at answered
        cases answered
        exact ⟨.inr ⟨.inl trivial,.inr ⟨n,rfl⟩⟩,by simp [Outcomes.Permits,written]⟩
  | query statement =>
    cases statement with
    | insert =>
      simp only [Outcomes.respond] at answered
      split_ifs at answered with inserted
      · exact ⟨usual answered,by cases answered; exact inserted.symm⟩
      · cases answered
        exact ⟨.inr ⟨rfl,trivial,rfl⟩,by simpa [Outcomes.Permits] using inserted⟩
    | selectFiles | countPath => exact ⟨usual answered,trivial⟩
  | read | write | redis | mmap | munmap | close | alloc | array | uninit | beyond => exact ⟨usual answered,trivial⟩

/-- The file cannot be opened, and its row is inserted. -/
def sampleOutcomes : Outcomes := ⟨false,none,true⟩

def sampleWorld : World := ⟨⟨ascii "a",true,[]⟩,sampleStart⟩

theorem sample_unopened : ∃ w', Runs (Storing sampleOutcomes [] 0)
    (upload sampleMd5 sampleFirst.fileheader (ascii "f") 1) sampleWorld (.ok ()) w' := by
  have returned : ((sampleOutcomes.respond [] 0).run 100 (upload sampleMd5 sampleFirst.fileheader (ascii "f") 1)
      sampleWorld).map (·.1) = some (.ok ()) := by decide +kernel
  obtain ⟨⟨_,w'⟩,ran,rfl⟩ := Option.map_eq_some_iff.mp returned
  exact ⟨w',Responder.run_sound (sampleOutcomes.respond_within [] 0) _ _ _ _ _ ran⟩

theorem sample_new : known sampleWorld.store (hashPath sampleFirst.fileheader.md5) 1 = some false := by
  decide +kernel

theorem sample_failed_store_iff : ∃ w', Runs (Storing sampleOutcomes [] 0)
      (upload sampleMd5 sampleFirst.fileheader (ascii "f") 1) sampleWorld (.ok ()) w' ∧
    ((sampleOutcomes.Fails sampleFirst.fileheader →
        Unrecorded sampleWorld.store w'.store (hashPath sampleFirst.fileheader.md5) ∧
        ∀ user, AskedAgain [] sampleWorld.store w'.store (hashPath sampleFirst.fileheader.md5) user) ↔
      sampleOutcomes.Stored sampleFirst.fileheader ∧ sampleOutcomes.inserted = true) ∧
    ((Unrecorded sampleWorld.store w'.store (hashPath sampleFirst.fileheader.md5) ∧
        ∀ user, user ≠ 1 →
          AskedAgain [] sampleWorld.store w'.store (hashPath sampleFirst.fileheader.md5) user) ↔
      sampleOutcomes.inserted = false) := by
  obtain ⟨w',run⟩ := sample_unopened
  exact ⟨w',run,failed_store_iff sample_new run⟩

/-- The content that no file holds is recorded as known. -/
theorem path_recorded : ¬ ∀ (o : Outcomes) (cwd : File) (me : Nat) (md5 : Bytes → Digest) (fh : Fileheader)
    (filename : Bytes) (userid : UInt64) (w w' : World), known w.store (hashPath fh.md5) userid = some false →
    Runs (Storing o cwd me) (upload md5 fh filename userid) w (.ok ()) w' → o.Fails fh →
    Unrecorded w.store w'.store (hashPath fh.md5) := by
  intro claim
  obtain ⟨w',run⟩ := sample_unopened
  have fails : sampleOutcomes.Fails sampleFirst.fileheader := fun done => absurd done.1.1 (by decide)
  have traceless := claim _ _ _ _ _ _ _ _ _ sample_new run fails
  have recorded := upload_records sample_new run
  have inside : newRow sampleFirst.fileheader (ascii "f") 1 ∈ w'.store.table := by
    simp [recorded.table,sampleOutcomes]
  exact traceless.rows _ inside rfl

end sample

end FilediskServer.FailedStores
