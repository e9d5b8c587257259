import FilediskServer.UploadProtocol

/-! The receive loop of `savefile` on a stream that ends. It has no test for the end: once
nothing comes any more the buffer stays as it is, and so does what the loop makes of it. -/
namespace FilediskServer.ReceiveLoop
open Interaction Bytes CusInfo Disk Calls SocketIO FileTask FileTaskRuns UploadHistory UploadProtocol

/-- The buffer after a number of rounds: each lays the next bytes of the stream over it, as
many as there are. -/
def bufferAfter (len : Nat) : Nat → Bytes → Bytes → Bytes
  | 0, buff, _ => buff
  | k + 1, buff, input => bufferAfter len k (overlay buff 0 (input.take len)) (input.drop len)

/-- After some round the buffer holds the announced content. -/
def Brings (md5 : Bytes → Digest) (fh : Fileheader) (buff input : Bytes) : Prop :=
  ∃ k ≤ input.length, md5 (bufferAfter fh.filelen.toNat (k + 1) buff input) = fh.md5

section buffer
variable {len k m : Nat} {buff input : Bytes}

theorem bufferAfter_end (k : Nat) : bufferAfter len k buff [] = buff := by
  induction k with
  | zero => rfl
  | succ k ih =>
    rw [bufferAfter,List.take_nil,List.drop_nil,overlay_nil]
    exact ih

theorem bufferAfter_empty (k : Nat) : bufferAfter 0 k buff input = buff := by
  induction k with
  | zero => rfl
  | succ k ih =>
    rw [bufferAfter,List.take_zero,List.drop_zero,overlay_nil]
    exact ih

theorem bufferAfter_stable (positive : 0 < len) (used : input.length ≤ k) (used' : input.length ≤ m) :
    bufferAfter len k buff input = bufferAfter len m buff input := by
  induction k generalizing m buff input with
  | zero =>
    obtain rfl := List.length_eq_zero_iff.mp (Nat.le_zero.mp used)
    rw [bufferAfter_end,bufferAfter_end]
  | succ k ih =>
    cases m with
    | zero =>
      obtain rfl := List.length_eq_zero_iff.mp (Nat.le_zero.mp used')
      rw [bufferAfter_end,bufferAfter_end]
    | succ m =>
      apply ih
      · rw [List.length_drop]
        omega
      · rw [List.length_drop]
        omega

theorem brings_of_round {md5 : Bytes → Digest} {fh : Fileheader}
    (right : md5 (bufferAfter fh.filelen.toNat (k + 1) buff input) = fh.md5) : Brings md5 fh buff input := by
  rcases le_or_gt k input.length with within | beyond
  · exact ⟨k,within,right⟩
  · -- A round beyond the end of the stream finds the buffer as it was.
    refine ⟨input.length,le_rfl,?_⟩
    rw [← right]
    rcases Nat.eq_zero_or_pos fh.filelen.toNat with zero | positive
    · rw [zero,bufferAfter_empty,bufferAfter_empty]
    · have used : input.length ≤ k + 1 := by omega
      rw [bufferAfter_stable positive (Nat.le_succ _) used]

end buffer

section loop
variable {cwd : File} {me n : Nat} {md5 : Bytes → Digest} {fh : Fileheader} {output : Bytes} {s : Store}

theorem rounds_right {env : Env} {c c' : Conn} {buff b got : Bytes} {c'' : Conn}
    (reads : ∀ c, ¬ env.readFails c) (small : (toInt fh.filelen).toNat = fh.filelen.toNat)
    (rounds : Relation.ReflTransGen (Resent env md5 fh) (c,buff) (c',b))
    (body : Received env c' (toInt fh.filelen).toNat got c'') (right : md5 (overlay b 0 got) = fh.md5) :
    ∃ k, md5 (bufferAfter fh.filelen.toNat (k + 1) buff c.input) = fh.md5 := by
  rw [small] at body
  have along {p : Conn × Bytes} (rounds : Relation.ReflTransGen (Resent env md5 fh) p (c',b)) :
      ∃ k, md5 (bufferAfter fh.filelen.toNat (k + 1) p.2 p.1.input) = fh.md5 := by
    -- From the first round on, so that what is left of the stream shrinks.
    induction rounds using Relation.ReflTransGen.head_induction_on with
    | refl =>
      obtain ⟨rfl,-⟩ := body.start reads
      exact ⟨0,right⟩
    | head first _ ih =>
      obtain ⟨k,later⟩ := ih
      cases first with
      | mk taken wrong answer =>
        rw [small] at taken
        obtain ⟨rfl,rfl,-⟩ := taken.start reads
        exact ⟨k + 1,later⟩
  exact along rounds

/-- A round on a stream that ends: the loop is left, or goes on with what is left of both. -/
theorem total_round_ended {post : Except Halt Bytes → World × Nat → Prop} (positive : 0 ≤ fh.filelen)
    (small : fh.filelen < 2 ^ 31) {buff input : Bytes}
    (leave : ∀ n, md5 (overlay buff 0 (input.take fh.filelen.toNat)) = fh.md5 →
      post (.ok (overlay buff 0 (input.take fh.filelen.toNat)))
        (⟨⟨input.drop fh.filelen.toNat,true,output⟩,s⟩,n))
    (again : ∀ n, md5 (overlay buff 0 (input.take fh.filelen.toNat)) ≠ fh.md5 →
      Total (Signalled cwd me) post
        (receiveChecked md5 fh (overlay buff 0 (input.take fh.filelen.toNat)))
        (⟨⟨input.drop fh.filelen.toNat,true,output ++ fileerror true⟩,s⟩,n)) :
    Total (Signalled cwd me) post (receiveChecked md5 fh buff) (⟨⟨input,true,output⟩,s⟩,n) := by
  have size : toInt fh.filelen = fh.filelen := toInt_eq_self positive small
  rw [← List.take_append_drop fh.filelen.toNat input]
  apply total_round
  apply total_bind
  apply total_receive_end buff
  · rw [size,List.length_take]
    omega
  · rw [size,List.length_take]
    exact fun less => ⟨rfl,List.drop_eq_nil_of_le (by omega)⟩
  intro n
  dsimp only [After]
  split_ifs with right
  · exact .ret (.ret (leave n right))
  · apply total_bind
    apply total_send (by decide) (by simp [Source.bytes,fileerror,flagRecord,toInt])
    intro n
    exact .ret (again n right)

theorem total_of_round (positive : 0 ≤ fh.filelen) (small : fh.filelen < 2 ^ 31) (k : Nat)
    {buff input : Bytes} (right : md5 (bufferAfter fh.filelen.toNat (k + 1) buff input) = fh.md5) :
    Total (Signalled cwd me) (fun _ _ => True) (receiveChecked md5 fh buff)
      (⟨⟨input,true,output⟩,s⟩,n) := by
  induction k generalizing buff input output n with
  | zero => exact total_round_ended positive small (fun _ _ => trivial) fun _ wrong => absurd right wrong
  | succ k ih => exact total_round_ended positive small (fun _ _ => trivial) fun _ _ => ih right

theorem brings_of_run {buff input : Bytes} (positive : 0 ≤ fh.filelen) (small : fh.filelen < 2 ^ 31)
    {out : Except Halt Bytes} {w' : World}
    (run : Runs (Sys (calm cwd) me) (receiveChecked md5 fh buff) ⟨⟨input,true,output⟩,s⟩ out w') :
    Brings md5 fh buff input := by
  have size : (toInt fh.filelen).toNat = fh.filelen.toNat := by rw [toInt_eq_self positive small]
  have brings : Wp (Sys (calm cwd) me) (fun _ _ => True) (receiveChecked md5 fh buff)
      (fun _ _ => Brings md5 fh buff input) ⟨⟨input,true,output⟩,s⟩ := by
    apply wp_receiveChecked (fun _ _ _ => trivial)
    rintro _ c ⟨rounds,body,right⟩
    obtain ⟨k,right⟩ := rounds_right (fun _ => not_false) size rounds body right
    exact brings_of_round right
  exact wp_runs run brings

/-- With a stream that ends, the loop comes to an end exactly when the stream brings the
announced content or leaves it in the buffer. -/
theorem receive_ends_iff (positive : 0 ≤ fh.filelen) (small : fh.filelen < 2 ^ 31) (buff input : Bytes) :
    (∀ n, Total (Signalled cwd me) (fun _ _ => True) (receiveChecked md5 fh buff)
      (⟨⟨input,true,output⟩,s⟩,n)) ↔ Brings md5 fh buff input := by
  constructor
  · intro ends
    obtain ⟨out,x,run,-⟩ := can_of_total (ends 0)
    exact brings_of_run positive small (runs_of_bounded run)
  · rintro ⟨k,-,right⟩ n
    exact total_of_round positive small k right

end loop

theorem sample_ends_iff : (∀ n, Total (Signalled [] 0) (fun _ _ => True)
      (receiveChecked sampleMd5 sampleFirst.fileheader (zeros 1)) (⟨⟨ascii "ba",true,[]⟩,sampleStart⟩,n)) ↔
    Brings sampleMd5 sampleFirst.fileheader (zeros 1) (ascii "ba") :=
  receive_ends_iff (by decide) (by decide) (zeros 1) (ascii "ba")

/-- A client announces one byte and sends none. -/
theorem body_missing : ¬ ∀ (cwd : File) (me : Nat) (md5 : Bytes → Digest) (fh : Fileheader)
    (buff input output : Bytes) (s : Store) (n : Nat), 0 ≤ fh.filelen → fh.filelen < 2 ^ 31 →
    buff.length = fh.filelen.toNat → Total (Signalled cwd me) (fun _ _ => True) (receiveChecked md5 fh buff)
      (⟨⟨input,true,output⟩,s⟩,n) := by
  intro claim
  have ends := claim [] 0 sampleMd5 sampleFirst.fileheader (zeros 1) [] [] sampleStart 0 (by decide) (by decide)
    (by decide)
  obtain ⟨out,x,run,-⟩ := can_of_total ends
  have brings : Brings sampleMd5 sampleFirst.fileheader (zeros 1) [] :=
    brings_of_run (by decide) (by decide) (runs_of_bounded run)
  obtain ⟨k,-,right⟩ := brings
  rw [bufferAfter_end] at right
  exact absurd right (by decide)

end FilediskServer.ReceiveLoop
