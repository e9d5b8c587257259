import FilediskServer.UploadProtocol

/-! `send` and `receive` over all sizes that a `long long` can have. Both pass the size on for
an `int`, which drives the loop. -/
namespace FilediskServer.SizeRange
open Interaction Bytes Disk Calls SocketIO UploadHistory UploadProtocol

/-- However the message is cut and the call is interrupted, `size` bytes of it are sent. -/
def Sends (cwd : File) (me : Nat) (w : World) (n : Nat) (msg : Source) (size : Int) : Prop :=
  Total (Signalled cwd me) (fun out x => out = .ok () ∧ x.1 = {w with conn := {w.conn with
    output := w.conn.output ++ (msg.bytes w.store.files).take size.toNat}}) (send msg size) (w,n)

/-- However the stream is cut and the call is interrupted, its next `size` bytes are taken. -/
def Receives (cwd : File) (me : Nat) (w : World) (n : Nat) (buff : Bytes) (size : Int) : Prop :=
  Total (Signalled cwd me) (fun out x => out = .ok (overlay buff 0 (w.conn.input.take size.toNat)) ∧
    x.1 = {w with conn := {w.conn with input := w.conn.input.drop size.toNat}}) (receive buff size) (w,n)

theorem toInt_lt (size : Int) : toInt size < 2 ^ 31 := by
  have bound := @Int.bmod_lt size (2 ^ 32) (by norm_num)
  unfold toInt
  omega

/-- The `int` asks for as many bytes exactly where it is the size. -/
theorem toInt_toNat_iff {size : Int} (low : 0 ≤ size) : (toInt size).toNat = size.toNat ↔ size < 2 ^ 31 := by
  constructor
  · intro same
    have bound := toInt_lt size
    omega
  · intro small
    rw [toInt_eq_self low small]

section transfers
variable {cwd : File} {me n : Nat} {w : World} {size : Int}

theorem sends_iff {msg : Source} (low : 0 ≤ size) (enough : size.toNat ≤ (msg.bytes w.store.files).length) :
    Sends cwd me w n msg size ↔ size < 2 ^ 31 := by
  rw [← toInt_toNat_iff low]
  constructor
  · intro sends
    obtain ⟨_,⟨v,_⟩,run,-,sent⟩ := can_of_total sends
    -- What every run sends is what the `int` asks for.
    have asked : Wp (Sys (calm cwd) me) (fun _ _ => True) (send msg size) (fun _ v => v.conn.output =
        w.conn.output ++ (msg.bytes w.store.files).take (toInt size).toNat) w := by
      apply wp_send _ _ fun _ _ _ _ => trivial
      intro sent done
      have fits := toInt_le low
      rw [done.whole not_false (by omega)]
    have output := wp_runs (runs_of_bounded run) asked
    dsimp only at sent output
    rw [sent] at output
    have length := congrArg List.length (List.append_cancel_left output)
    have fits := toInt_le low
    rw [List.length_take,List.length_take] at length
    omega
  · intro same
    unfold Sends
    rw [← same]
    have positive := toInt_eq_self low ((toInt_toNat_iff low).mp same)
    exact total_send (by omega) (by omega) fun _ => ⟨rfl,rfl⟩

theorem receives_iff {buff : Bytes} (low : 0 ≤ size) (arrived : size.toNat ≤ w.conn.input.length) :
    Receives cwd me w n buff size ↔ size < 2 ^ 31 := by
  rw [← toInt_toNat_iff low]
  constructor
  · intro receives
    obtain ⟨_,⟨v,_⟩,run,-,left⟩ := can_of_total receives
    have asked : Wp (Sys (calm cwd) me) (fun _ _ => True) (receive buff size) (fun _ v => v.conn.input =
        w.conn.input.drop (toInt size).toNat) w := by
      apply wp_receive _ _ fun _ _ => trivial
      intro got c received
      rw [(received.start fun _ => not_false).2.1]
    have input := wp_runs (runs_of_bounded run) asked
    dsimp only at left input
    rw [left] at input
    have length := congrArg List.length input
    have fits := toInt_le low
    rw [List.length_drop,List.length_drop] at length
    omega
  · intro same
    unfold Receives
    rw [← same]
    have positive := toInt_eq_self low ((toInt_toNat_iff low).mp same)
    obtain ⟨⟨input,ended,output⟩,s⟩ := w
    have length : ((input.take (toInt size).toNat).length : Int) = toInt size := by
      rw [List.length_take]
      dsimp only at arrived
      omega
    have received := @total_receive .ample cwd me n output ended s
      (fun out x => out = .ok (overlay buff 0 (input.take (toInt size).toNat)) ∧
        x.1 = ⟨⟨input.drop (toInt size).toNat,ended,output⟩,s⟩) buff _ (input.drop (toInt size).toNat) size
        length fun _ => ⟨rfl,rfl⟩
    rwa [List.take_append_drop] at received

/-- `send` and `receive` transfer what they are asked for exactly where the size fits an `int`. -/
theorem full_size_iff {msg : Source} {buff : Bytes} (low : 0 ≤ size)
    (enough : size.toNat ≤ (msg.bytes w.store.files).length) (arrived : size.toNat ≤ w.conn.input.length) :
    (Sends cwd me w n msg size ↔ size < 2 ^ 31) ∧ (Receives cwd me w n buff size ↔ size < 2 ^ 31) :=
  ⟨sends_iff low enough,receives_iff low arrived⟩

end transfers

/-- Four bytes come and three are taken for the next record. -/
theorem sample_full_size :
    (Sends [] 0 ⟨⟨[1,2,3,4],true,[]⟩,sampleStart⟩ 2 (.buf [5,6,7]) 3 ↔ (3 : Int) < 2 ^ 31) ∧
    (Receives [] 0 ⟨⟨[1,2,3,4],true,[]⟩,sampleStart⟩ 2 [0,0,0] 3 ↔ (3 : Int) < 2 ^ 31) :=
  full_size_iff (by decide) (by decide) (by decide)

/-- Of 2 GiB nothing is sent, as the `int` is negative. -/
theorem size_lost : ¬ ∀ (cwd : File) (me n : Nat) (w : World) (msg : Source) (size : Int), 0 ≤ size →
    size < 2 ^ 63 → size.toNat ≤ (msg.bytes w.store.files).length → Sends cwd me w n msg size := by
  intro claim
  have enough : ((2 : Int) ^ 31).toNat ≤ (Source.bytes sampleStart.files (.buf (zeros (2 ^ 31)))).length := by
    simp [Source.bytes]
  have sends := claim [] 0 0 ⟨⟨[],true,[]⟩,sampleStart⟩ (.buf (zeros (2 ^ 31))) (2 ^ 31) (by norm_num)
    (by norm_num) enough
  exact absurd ((sends_iff (by norm_num) enough).mp sends) (by norm_num)

end FilediskServer.SizeRange
