import FilediskServer.Library.Extension
import FilediskServer.TruncatedRequests

/-! The sizes of arrays that `process` and `savefile` work out of the numbers a client sends. -/
namespace FilediskServer.WireLengths
open Interaction Bytes CusInfo Redis Filetree Disk Calls SocketIO FileTask FileTaskRuns UploadHistory
open Downloads KeyTypes TruncatedRequests

/-- An array that is declared or allocated, or the array and the size that `receive` is given. -/
inductive ArrayUse
  | filename (filenamelen : Int)
  | filebuff (filelen : Int)
  | receive (capacity : Nat) (size : Int)

/-- `filenamelen+1` is an `int` and positive, `filelen` is not negative, and no more bytes are asked
for than there is room. -/
def Safe : ArrayUse → Prop
  | .filename filenamelen => filenamelen + 1 < 2 ^ 31 ∧ 0 < filenamelen + 1
  | .filebuff filelen => 0 ≤ filelen
  | .receive capacity size => (toInt size).toNat ≤ capacity

abbrev Noted := Prog (signature.plus (.notes ArrayUse)) Halt

def note (use : ArrayUse) : Noted Unit := .call (.inr use) .ret

/-! The functions of `FileTask` with a note before each use of an array. -/

def receiveNoted (buff : Bytes) (size : Int) : Noted Bytes := do
  note (.receive buff.length size)
  (receive buff size).lift

section
variable (md5 : Bytes → Digest)

def receiveCheckedNoted (fh : Fileheader) (filebuff : Bytes) : Noted Bytes :=
  .iter (fun filebuff => do
    let filebuff ← receiveNoted filebuff fh.filelen
    if md5 filebuff = fh.md5 then pure (.inr filebuff)
    else
      (send (.buf (fileerror true)) 1).lift
      pure (.inl filebuff)) filebuff

def savefileNoted (fh : Fileheader) (userid : UInt64) : Noted Bytes := do
  let filename := hashPath fh.md5
  let isexits ← (isfileexits filename userid).lift
  (send (.buf (fileexists isexits)) 1).lift
  if isexits then pure filename
  else
    note (.filebuff fh.filelen)
    if fh.filelen < 0 then .throw .badAlloc
    else
      match ← (ask (.alloc fh.filelen.toNat)).lift with
      | none => .throw .badAlloc
      | some filebuff =>
        let filebuff ← receiveCheckedNoted md5 fh filebuff
        let sfd ← (ask (.openFile filename)).lift
        (ask (.writeFile sfd filebuff)).lift
        (ask (.close sfd)).lift
        pure filename

def uploadNoted (fh : Fileheader) (filename : Bytes) (userid : UInt64) : Noted Unit := do
  let hashfilepath ← savefileNoted md5 fh userid
  let _ ← (ask (.query (.insert userid filename fh.index hashfilepath fh.dirid fh.filelen))).lift
  (redis (.sadd (decimal userid.toNat) hashfilepath)).lift
  (redis (.setex (decimal userid.toNat) (4 * 60 * 60) hashfilepath)).lift

def processNoted : Noted Unit := do
  let buff ← receiveNoted (zeros sizeofDatauuid) sizeofDatauuid
  let beyond ← (ask .beyond).lift
  let (valid,userid) ← (validate (uuidOf buff beyond)).lift
  (userValidate valid).lift
  if valid then
    let filenamelen := namelenOf buff
    note (.filename filenamelen)
    if 0 ≤ filenamelen ∧ filenamelen + 1 < 2 ^ 31 then
      if ← (ask (.array (filenamelen + 1).toNat)).lift then
        let filename ← receiveNoted (zeros (filenamelen + 1).toNat) filenamelen
        let fheaderinfo ← receiveNoted (zeros sizeofFileheader) sizeofFileheader
        let fh := Fileheader.read fheaderinfo
        if fh.upload then uploadNoted md5 fh (cstr filename) userid
        else (downloadfile fh (cstr filename) userid).lift
      else .throw .stackOverflow
    else .throw .undefined
  else pure ()

end

section erased
variable {md5 : Bytes → Digest} {fh : Fileheader} {filename : Bytes} {userid : UInt64}

theorem erase_receive (buff : Bytes) (size : Int) : (receiveNoted buff size).erase = receive buff size :=
  Prog.erase_lift _

theorem erase_receiveChecked (filebuff : Bytes) :
    (receiveCheckedNoted md5 fh filebuff).erase = receiveChecked md5 fh filebuff := by
  refine congrArg (Prog.loop · filebuff .ret) (funext fun filebuff => ?_)
  refine erase_then (erase_receive _ _) fun filebuff => ?_
  split_ifs
  · rfl
  · exact erase_then (Prog.erase_lift _) fun _ => rfl

theorem erase_savefile : (savefileNoted md5 fh userid).erase = savefile md5 fh userid := by
  refine erase_then (Prog.erase_lift _) fun isexits => erase_then (Prog.erase_lift _) fun _ => ?_
  split_ifs
  · rfl
  · rfl
  · refine erase_then (Prog.erase_lift _) fun memory => ?_
    cases memory with
    | none => rfl
    | some filebuff =>
      refine erase_then (erase_receiveChecked _) fun filebuff => ?_
      refine erase_then (Prog.erase_lift _) fun sfd => ?_
      exact erase_then (Prog.erase_lift _) fun _ => erase_then (Prog.erase_lift _) fun _ => rfl

theorem erase_upload : (uploadNoted md5 fh filename userid).erase = upload md5 fh filename userid := by
  refine erase_then erase_savefile fun hashfilepath => erase_then (Prog.erase_lift _) fun _ => ?_
  exact erase_then (Prog.erase_lift _) fun _ => Prog.erase_lift _

theorem erase_process : (processNoted md5).erase = process md5 := by
  refine erase_then (erase_receive _ _) fun buff => erase_then (Prog.erase_lift _) fun beyond => ?_
  refine erase_then (Prog.erase_lift _) fun result => erase_then (Prog.erase_lift _) fun _ => ?_
  split_ifs
  · dsimp only
    split_ifs
    · refine erase_then (Prog.erase_lift _) fun room => ?_
      split_ifs
      · refine erase_then (erase_receive _ _) fun filename => erase_then (erase_receive _ _) fun fheaderinfo => ?_
        split_ifs
        · exact erase_upload
        · exact Prog.erase_lift _
      · rfl
    · rfl
  · rfl

end erased

/-- The points of a run of `process` are those of the program with notes, less its notes. -/
theorem reaches_noted {env : Env} {me : Nat} {md5 : Bytes → Digest} {w w' : World} {q : Job Unit} :
    Reaches (Sys env me) (process md5) w q w' ↔
      ∃ p', Reaches (Beside (Sys env me) Silent) (processNoted md5) w p' w' ∧ p'.erase = q := by
  rw [← erase_process]
  exact reaches_erase

/-- At every point of every run at which an array comes to be used, its use is safe. -/
def SafeLengths (env : Env) (me : Nat) (md5 : Bytes → Digest) (w : World) : Prop :=
  ∀ use, Comes (Beside (Sys env me) Silent) (processNoted md5) w (.inr use) → Safe use

/-- The length of the name in the record of a user with a session fits with its NUL into an `int`,
and, where the stack has room for the name, the length in the header of an upload whose content is
not known is not negative. -/
def LengthsInRange (k : Kernel) (w : World) : Prop := ∀ beyond userid, Arrives w.conn sizeofDatauuid →
  SessionOf w.store.redis.keys (uuidOf (recordRead w.conn) beyond) userid →
  (0 ≤ namelenOf (recordRead w.conn) ∧ namelenOf (recordRead w.conn) < 2 ^ 31 - 1) ∧
  (k.arrays (namelenOf (recordRead w.conn) + 1).toNat →
    Arrives w.conn (afterName w.conn + sizeofFileheader) → (headerRead w.conn).upload = true →
    known w.store (hashPath (headerRead w.conn).md5) userid = some false → 0 ≤ (headerRead w.conn).filelen)

section specifications
variable {env : Env} {me : Nat} {w : World} {md5 : Bytes → Digest} {fh : Fileheader} {filename : Bytes}
  {userid : UInt64}

def Uses : World → (signature.plus (.notes ArrayUse)).Op → Prop := fun _ => Sum.elim (fun _ => True) Safe

theorem wp_work {α : Type} {p : Job α} {post : Except Halt α → World → Prop}
    (holds : Wp (Sys env me) (fun _ _ => True) p post w) :
    Wp (Beside (Sys env me) Silent) Uses p.lift post w := by
  refine wp_allow ?_ (wp_lift (beside_extends _ _) holds)
  rintro w (c | use) allowed
  · trivial
  · exact allowed.elim

theorem wp_note {use : ArrayUse} {post : Except Halt Unit → World → Prop} (safe : Safe use)
    (after : post (.ok ()) w) : Wp (Beside (Sys env me) Silent) Uses (note use) post w := by
  refine ⟨safe,fun r w' same => ?_⟩
  obtain rfl : w' = w := same
  exact after

theorem wp_receiveNoted {buff : Bytes} {size : Int} {post : Except Halt Bytes → World → Prop}
    (safe : (toInt size).toNat ≤ buff.length)
    (after : ∀ got c, Received env w.conn (toInt size).toNat got c →
      (overlay buff 0 got).length = buff.length → post (.ok (overlay buff 0 got)) {w with conn := c}) :
    Wp (Beside (Sys env me) Silent) Uses (receiveNoted buff size) post w := by
  refine wp_bind (wp_note safe (wp_work (wp_receive _ _ (fun _ _ => trivial) fun got c received => ?_)))
  have bound := received.bound
  exact after got c received (length_overlay (by omega))

theorem wp_receiveCheckedNoted {fresh : Bytes} (positive : 0 ≤ fh.filelen)
    (size : fresh.length = fh.filelen.toNat) :
    Wp (Beside (Sys env me) Silent) Uses (receiveCheckedNoted md5 fh fresh) (fun _ _ => True) w := by
  refine ⟨fun b _ => b.length = fh.filelen.toNat,size,fun b v kept => ?_⟩
  apply wp_bind
  apply wp_receiveNoted
  · rw [kept]
    exact toInt_le positive
  · intro got c _ length
    dsimp only [After]
    split_ifs with right
    · trivial
    · apply wp_bind
      apply wp_work
      apply wp_send _ _ (fun _ _ _ _ => trivial)
      exact fun _ _ => length.trans kept

theorem wp_then {α β : Type} {p : Noted α} {f : α → Noted β}
    (first : Wp (Beside (Sys env me) Silent) Uses p (fun _ _ => True) w)
    (rest : ∀ a v, Wp (Beside (Sys env me) Silent) Uses (f a) (fun _ _ => True) v) :
    Wp (Beside (Sys env me) Silent) Uses (p.bind f) (fun _ _ => True) w := by
  refine wp_bind (wp_mono ?_ first)
  rintro (e | a) v _
  · trivial
  · exact rest a v

theorem wp_free {α : Type} (p : Job α) : Wp (Beside (Sys env me) Silent) Uses p.lift (fun _ _ => True) w :=
  wp_work (wp_true p)

theorem wp_savefileNoted (answers : ∀ s c r s', env.redis s c r s' → failing s c r s')
    (positive : known w.store (hashPath fh.md5) userid = some false → 0 ≤ fh.filelen) :
    Wp (Beside (Sys env me) Silent) Uses (savefileNoted md5 fh userid) (fun _ _ => True) w := by
  apply wp_bind
  apply wp_work
  apply wp_isfileexits (fun _ _ _ => trivial) trivial
  intro out r check
  match out with
  | .error e => trivial
  | .ok true => exact wp_then (wp_free _) fun _ _ => trivial
  | .ok false =>
    have low := positive (exists_known answers check)
    have safe : Safe (.filebuff fh.filelen) := low
    refine wp_then (wp_free _) fun _ _ => ?_
    simp only [Bool.false_eq_true,if_false,if_neg (not_lt.mpr low)]
    apply wp_bind
    apply wp_note safe
    apply wp_bind
    apply wp_work
    apply wp_ask trivial
    rintro memory w' ⟨rfl,⟨fresh,rfl,size,-⟩ | ⟨rfl,fails⟩⟩
    · refine wp_then (wp_receiveCheckedNoted low size) fun filebuff _ => ?_
      refine wp_then (wp_free _) fun sfd _ => wp_then (wp_free _) fun _ _ => ?_
      exact wp_then (wp_free _) fun _ _ => trivial
    · trivial

theorem wp_processNoted (answers : ∀ s c r s', env.redis s c r s' → failing s c r s')
    (reads : ∀ c, ¬ env.readFails c) (lengths : LengthsInRange env.kernel w) :
    Wp (Beside (Sys env me) Silent) Uses (processNoted md5) (fun _ _ => True) w := by
  apply wp_bind
  apply wp_receiveNoted le_rfl
  intro got c record _
  obtain ⟨rfl,rfl,first⟩ := (show Received _ _ sizeofDatauuid got c from record).start reads
  rw [show overlay (zeros sizeofDatauuid) 0 (w.conn.input.take sizeofDatauuid) = recordRead w.conn from rfl]
  refine wp_bind (wp_work (wp_ask trivial ?_))
  rintro beyond _ rfl
  refine wp_bind (wp_work (FileTaskRuns.wp_validate trivial (fun _ _ _ => trivial) (fun _ _ => ?_)
    (fun _ _ _ _ _ => trivial) fun userid s session => ?_))
  · exact wp_then (wp_free _) fun _ _ => trivial
  obtain ⟨live,rfl⟩ := session_failing answers session
  obtain ⟨⟨low,high⟩,positive⟩ := lengths beyond userid first live
  have named : Safe (.filename (namelenOf (recordRead w.conn))) := by
    unfold Safe
    omega
  have length : toInt (namelenOf (recordRead w.conn)) = namelenOf (recordRead w.conn) :=
    toInt_eq_self low (by omega)
  refine wp_bind (wp_work (wp_send _ _ (fun _ _ _ _ => trivial) fun sent _ => ?_))
  dsimp only [After]
  rw [if_pos rfl]
  refine wp_bind (wp_note named ?_)
  dsimp only [After]
  rw [if_pos ⟨low,by omega⟩]
  apply wp_bind
  apply wp_work
  apply wp_ask trivial
  rintro fits _ ⟨rfl,⟨rfl,room⟩ | ⟨rfl,-⟩⟩
  case inr => trivial
  dsimp only [After]
  rw [if_pos rfl]
  apply wp_bind
  apply wp_receiveNoted
  · rw [length,length_zeros]
    omega
  intro name c named _
  rw [length] at named
  obtain ⟨rfl,rfl,-⟩ := named.start reads
  apply wp_bind
  apply wp_receiveNoted le_rfl
  intro header c headed _
  obtain ⟨rfl,rfl,last⟩ := (show Received _ _ sizeofFileheader header c from headed).start reads
  dsimp only [After]
  rw [header_read]
  split_ifs with wanted
  · refine wp_then (wp_savefileNoted answers fun absent => positive room ?_ wanted absent) fun _ _ => ?_
    · apply last.imp_left
      intro enough
      rw [List.length_drop,List.length_drop] at enough
      simp only [afterName,sizeofFileheader] at enough ⊢
      omega
    · refine wp_then (wp_free _) fun _ _ => wp_then (wp_free _) fun _ _ => wp_free _
  · exact wp_free _

theorem can_work {α : Type} {p : Job α} {post : Except Halt α → World → Prop}
    (can : Can (Sys env me) p post w) :
    Can (Beside (Sys env me) Silent) (p.lift (T := .notes ArrayUse)) post w :=
  can_lift (beside_extends _ _) can

theorem can_note {use : ArrayUse} {post : Except Halt Unit → World → Prop} (after : post (.ok ()) w) :
    Can (Beside (Sys env me) Silent) (note use) post w :=
  can_call (r := ()) (show Beside (Sys env me) Silent w (.inr use) () w from rfl) (can_ret after)

theorem can_receiveNoted {post : Except Halt Bytes → World → Prop} (buff : Bytes) {size : Int}
    (arrives : (toInt size).toNat ≤ w.conn.input.length ∨ w.conn.ended = true)
    (after : post (.ok (overlay buff 0 (w.conn.input.take (toInt size).toNat)))
      {w with conn := {w.conn with input := w.conn.input.drop (toInt size).toNat}}) :
    Can (Beside (Sys env me) Silent) (receiveNoted buff size) post w :=
  can_bind (can_note (can_work (can_receive buff arrives after)))

/-- The request of a user with a session comes to the array for its name and, if that is one, to
what follows its header. -/
theorem comes_request (allows : ∀ s c r s', typed s c r s' → env.redis s c r s') {beyond : Bytes}
    (arrives : Arrives w.conn sizeofDatauuid)
    (live : SessionOf w.store.redis.keys (uuidOf (recordRead w.conn) beyond) userid) {use : ArrayUse}
    (comes : use = .filename (namelenOf (recordRead w.conn)) ∨
      0 ≤ namelenOf (recordRead w.conn) ∧ namelenOf (recordRead w.conn) + 1 < 2 ^ 31 ∧
      env.kernel.arrays (namelenOf (recordRead w.conn) + 1).toNat ∧
      Arrives w.conn (afterName w.conn + sizeofFileheader) ∧ (headerRead w.conn).upload = true ∧
      ∀ name c, Comes (Beside (Sys env me) Silent) (uploadNoted md5 (headerRead w.conn) name userid)
        ⟨c,w.store⟩ (.inr use)) :
    Comes (Beside (Sys env me) Silent) (processNoted md5) w (.inr use) := by
  obtain ⟨conn,⟨redis,table,files⟩⟩ := w
  refine comes_then (can_receiveNoted _ arrives ?_)
  refine comes_then (can_work (can_ask (r := beyond) rfl ?_))
  apply comes_then
  apply can_work
  apply can_validate allows live
  apply comes_then
  apply can_work
  apply can_send
  dsimp only [After]
  rw [if_pos rfl]
  rcases comes with rfl | ⟨low,high,room,whole,wanted,comes⟩
  · exact comes_here _
  have length : toInt (namelenOf (recordRead conn)) = namelenOf (recordRead conn) :=
    toInt_eq_self low (by dsimp only at high; omega)
  apply comes_then
  apply can_note
  dsimp only [After]
  rw [if_pos ⟨low,high⟩]
  refine comes_then (can_work (can_ask (r := true) ⟨rfl,.inl ⟨rfl,room⟩⟩ ?_))
  dsimp only [After]
  rw [if_pos rfl]
  refine comes_then (can_receiveNoted _ (arrives_name low high whole) ?_)
  refine comes_then (can_receiveNoted _ (arrives_header low high whole) ?_)
  have header : Fileheader.read (overlay (zeros sizeofFileheader) 0 (((conn.input.drop sizeofDatauuid).drop
      (toInt (namelenOf (recordRead conn))).toNat).take sizeofFileheader)) = headerRead conn := by
    rw [length]
    exact header_read conn
  have forty : (toInt (40 : Nat)).toNat = 40 := rfl
  have record : overlay (zeros 40) 0 (conn.input.take 40) = recordRead conn := rfl
  dsimp only [After,sizeofDatauuid,sizeofFileheader] at header ⊢
  rw [forty,record,header,if_pos wanted]
  exact comes _ _

theorem comes_filebuff (allows : ∀ s c r s', typed s c r s' → env.redis s c r s')
    (absent : known w.store (hashPath fh.md5) userid = some false) :
    Comes (Beside (Sys env me) Silent) (uploadNoted md5 fh filename userid) w (.inr (.filebuff fh.filelen)) := by
  apply comes_first
  apply comes_then
  apply can_work
  apply can_known allows absent
  apply comes_then
  apply can_work
  apply can_send
  simp only [After,Bool.false_eq_true,if_false]
  exact comes_here _

/-- The uses of the arrays are safe exactly if the lengths are in range; reads do not fail, and Redis
answers by type or fails. -/
theorem wire_lengths_iff (allows : ∀ s c r s', typed s c r s' → env.redis s c r s')
    (answers : ∀ s c r s', env.redis s c r s' → failing s c r s') (reads : ∀ c, ¬ env.readFails c) :
    SafeLengths env me md5 w ↔ LengthsInRange env.kernel w := by
  constructor
  · intro safe beyond userid arrives live
    have named : Safe (.filename (namelenOf (recordRead w.conn))) :=
      safe _ (comes_request allows arrives live (.inl rfl))
    obtain ⟨high,low⟩ := named
    refine ⟨⟨by omega,by omega⟩,fun room whole wanted absent => ?_⟩
    have allocated : Safe (.filebuff (headerRead w.conn).filelen) := safe _ (comes_request allows arrives live
      (.inr ⟨by omega,high,room,whole,wanted,fun name c => comes_filebuff allows absent⟩))
    exact allocated
  · intro lengths use comes
    obtain ⟨_,safe⟩ := comes_may (wp_processNoted answers reads lengths) comes
    exact safe

end specifications

section sample

/-- A user with a session announces a name of so many bytes. -/
def sampleRequest (namelen : Int) : World :=
  ⟨⟨recordOf (ascii "s1") namelen ++ (ascii "f" ++ Fileheader.bytes ⟨0,sampleDigest,1,true,1⟩),true,[]⟩,
    sampleStart⟩

theorem sample_lengths_iff :
    SafeLengths (calm []) 0 sampleMd5 (sampleRequest 1) ↔ LengthsInRange .ample (sampleRequest 1) :=
  wire_lengths_iff (fun _ _ _ _ => id) (fun _ _ _ _ => Or.inl) fun _ => not_false

theorem sampleRequest_session : SessionOf (sampleRequest (-1)).store.redis.keys
    (uuidOf (recordRead (sampleRequest (-1)).conn) []) 1 := by
  have key : uuidOf (recordRead (sampleRequest (-1)).conn) [] = ascii "s1" := by decide +kernel
  rw [key]
  exact ⟨[(ascii "username",ascii "ann"),(ascii "userid",ascii "1")],false,by decide,by simp,by decide⟩

/-- A name of -1 bytes is to be put into an array of none. -/
theorem negative_name_unsafe : ¬ ∀ (cwd : File) (me : Nat) (md5 : Bytes → Digest) (w : World),
    (∃ userid, SessionOf w.store.redis.keys (uuidOf (recordRead w.conn) []) userid) →
    SafeLengths (calm cwd) me md5 w := by
  intro claim
  have safe := claim [] 0 sampleMd5 (sampleRequest (-1)) ⟨1,sampleRequest_session⟩
  have arrives : Arrives (sampleRequest (-1)).conn sizeofDatauuid := .inr rfl
  have used := safe _ (comes_request (fun _ _ _ _ => id) arrives sampleRequest_session (.inl rfl))
  exact absurd used.2 (by decide +kernel)

end sample

end FilediskServer.WireLengths
