import FilediskServer.Calls

/-! `SocketIO` and the `TcpConnection` over it: the loops that read and write a given
number of bytes, and what they leave in the buffer and on the connection. -/
namespace FilediskServer.SocketIO
open Interaction Bytes Calls

/-- A `long long` passed for an `int`. -/
def toInt (size : Int) : Int := size.bmod (2 ^ 32)

theorem toInt_eq_self {size : Int} (low : 0 ≤ size) (high : size < 2 ^ 31) : toInt size = size :=
  Int.bmod_eq_of_le (by omega) (by omega)

def readn (buf : Bytes) (len : Int) : Job (Int × Bytes) :=
  .iter (fun (left,buf) => do
    if left > 0 then
      match ← ask (.read left.toNat) with
      | .eintr => pure (.inl (left,buf))
      | .failed => pure (.inr (-1,buf))
      | .eof => pure (.inr (len - left,buf))
      | .data b => pure (.inl (left - b.length,overlay buf (len - left).toNat b))
    else pure (.inr (len - left,buf))) (len,buf)

def writen (buf : Source) (len : Int) : Job Int :=
  .iter (fun (left,source) => do
    if left > 0 then
      match ← ask (.write source left.toNat) with
      | .eintr => pure (.inl (left,source))
      | .failed => pure (.inr (-1))
      | .count n =>
        if n = 0 then pure (.inr (len - left)) else pure (.inl (left - n,source.advance n))
    else pure (.inr (len - left))) (len,buf)

/-- `TcpConnection::send`; what `writen` returns is dropped. -/
def send (msg : Source) (size : Int) : Job Unit := do
  let _ ← writen msg (toInt size)

/-- `TcpConnection::receive`; the buffer as it is left, what `readn` returns is dropped. -/
def receive (buff : Bytes) (size : Int) : Job Bytes := do
  let (_,buff) ← readn buff (toInt size)
  pure buff

/-- `got` is what arrived when `n` bytes were asked for. -/
structure Received (env : Env) (c : Conn) (n : Nat) (got : Bytes) (c' : Conn) : Prop where
  taken : c.input = got ++ c'.input
  bound : got.length ≤ n
  ended : c'.ended = c.ended
  output : c'.output = c.output
  short : got.length < n → env.readFails c' ∨ c.ended = true ∧ c'.input = []

/-- `sent` is what left when `n` bytes of a source were to be sent. -/
structure Sent (env : Env) (ready : Bytes) (n : Nat) (sent : Bytes) : Prop where
  upTo : sent <+: ready.take n
  short : sent.length < n → env.writeFails ∨ ready.length < n

theorem Received.whole {env : Env} {c c' : Conn} {n : Nat} {got first rest : Bytes}
    (received : Received env c n got c') (input : c.input = first ++ rest) (size : first.length = n)
    (reads : ∀ c : Conn, rest.length < c.input.length → ¬ env.readFails c) :
    got = first ∧ c' = {c with input := rest} := by
  have total : first.length + rest.length = got.length + c'.input.length := by
    rw [← List.length_append,← List.length_append,← input,received.taken]
  have full : got.length = n := by
    by_contra part
    have less : got.length < n := lt_of_le_of_ne received.bound part
    rcases received.short less with fails | ⟨-,empty⟩
    · exact reads c' (by omega) fails
    · rw [empty,List.length_nil] at total
      omega
  obtain ⟨same,left⟩ := List.append_inj (input.symm.trans received.taken) (size.trans full.symm)
  obtain ⟨input',ended',output'⟩ := c'
  obtain rfl : ended' = c.ended := received.ended
  obtain rfl : output' = c.output := received.output
  exact ⟨same.symm,by rw [show rest = input' from left]⟩

/-- Where reads fail at the end of the stream at most, all that has come is received. -/
theorem Received.all {env : Env} {c c' : Conn} {n : Nat} {got : Bytes}
    (received : Received env c n got c') (reads : ∀ c, env.readFails c → c.input = []) :
    got = c.input.take n ∧ c' = {c with input := c.input.drop n} := by
  obtain ⟨input,ended,output⟩ := c
  obtain ⟨input',ended',output'⟩ := c'
  obtain ⟨rfl,bound,rfl,rfl,short⟩ := received
  dsimp only at short ⊢
  rcases lt_or_eq_of_le bound with less | full
  · obtain rfl : input' = [] := by
      rcases short less with fails | ⟨_,empty⟩
      · exact reads _ fails
      · exact empty
    rw [List.append_nil,List.take_of_length_le bound,List.drop_of_length_le bound]
    exact ⟨rfl,rfl⟩
  · rw [List.take_left' full,List.drop_left' full]
    exact ⟨rfl,rfl⟩

theorem Received.start {env : Env} {c c' : Conn} {n : Nat} {got : Bytes}
    (received : Received env c n got c') (reads : ∀ c, ¬ env.readFails c) :
    got = c.input.take n ∧ c' = {c with input := c.input.drop n} ∧
      (n ≤ c.input.length ∨ c.ended = true) := by
  obtain ⟨taken,left⟩ := received.all fun c fails => absurd fails (reads c)
  refine ⟨taken,left,?_⟩
  rcases lt_or_eq_of_le received.bound with less | full
  · exact .inr ((received.short less).resolve_left (reads _)).1
  · rw [taken,List.length_take] at full
    omega

theorem Sent.whole {env : Env} {ready sent : Bytes} {n : Nat} (done : Sent env ready n sent)
    (writes : ¬ env.writeFails) (enough : n ≤ ready.length) : sent = ready.take n := by
  have full : ¬ sent.length < n := fun less => (done.short less).elim writes (by omega)
  apply done.upTo.eq_of_length_le
  rw [List.length_take]
  omega

theorem overlay_overlay (buf got b : Bytes) :
    overlay (overlay buf 0 got) got.length b = overlay buf 0 (got ++ b) := by
  simp [overlay,List.drop_append]

/-- What `pstr` points to, once more bytes have been read behind those that a buffer starts with. -/
theorem overlay_read {len left : Int} {got : Bytes} (buf b : Bytes) (count : (got.length : Int) = len - left) :
    ((got ++ b).length : Int) = len - (left - b.length) ∧
      overlay (overlay buf 0 got) (len - left).toNat b = overlay buf 0 (got ++ b) := by
  constructor
  · rw [List.length_append]
    push_cast
    omega
  · have place : (len - left).toNat = got.length := by omega
    rw [place,overlay_overlay]

section specifications
variable {env : Env} {me : Nat} {may : World → Call → Prop} {w : World}

theorem wp_readn {post : Except Halt (Int × Bytes) → World → Prop} (buf : Bytes) (len : Int)
    (reads : ∀ c n, may {w with conn := c} (.read n))
    (after : ∀ ret got c, Received env w.conn len.toNat got c →
      post (.ok (ret,overlay buf 0 got)) {w with conn := c}) :
    Wp (Sys env me) may (readn buf len) post w := by
  -- Between two reads the buffer starts with all that arrived so far.
  refine ⟨fun s v => ∃ got c, v = {w with conn := c} ∧ w.conn.input = got ++ c.input ∧
    (got.length : Int) = len - s.1 ∧ (0 ≤ s.1 ∨ got = []) ∧ c.ended = w.conn.ended ∧
    c.output = w.conn.output ∧ s.2 = overlay buf 0 got,?_,?_⟩
  · exact ⟨[],w.conn,rfl,rfl,by simp,.inr rfl,rfl,rfl,(overlay_nil buf).symm⟩
  · rintro ⟨left,held⟩ v ⟨got,c,rfl,taken,count,sign,ended,output,rfl⟩
    dsimp only at count sign ⊢
    have bound : got.length ≤ len.toNat ∧ (left ≤ 0 → got.length = len.toNat) := by
      rcases sign with positive | rfl
      · omega
      · simp only [List.length_nil] at count ⊢
        omega
    split_ifs with more
    · refine ⟨reads c _,fun r v' answered => ?_⟩
      match r with
      | .eintr => subst answered; exact ⟨got,c,rfl,taken,count,sign,ended,output,rfl⟩
      | .failed =>
        obtain ⟨fails,rfl⟩ := answered
        exact after _ got c ⟨taken,bound.1,ended,output,fun _ => .inl fails⟩
      | .eof =>
        obtain ⟨empty,closed,rfl⟩ := answered
        exact after _ got c ⟨taken,bound.1,ended,output,fun _ => .inr ⟨ended ▸ closed,empty⟩⟩
      | .data b =>
        obtain ⟨_,fits,rest,input,rfl⟩ := answered
        obtain ⟨length,same⟩ := overlay_read buf b count
        refine ⟨got ++ b,{c with input := rest},rfl,?_,length,.inl (by dsimp only; omega),ended,output,same⟩
        rw [taken,show c.input = b ++ rest from input,List.append_assoc]
    · exact after _ got c ⟨taken,bound.1,ended,output,fun less => absurd (bound.2 (by omega)) (by omega)⟩

theorem wp_receive {post : Except Halt Bytes → World → Prop} (buff : Bytes) (size : Int)
    (reads : ∀ c n, may {w with conn := c} (.read n))
    (after : ∀ got c, Received env w.conn (toInt size).toNat got c →
      post (.ok (overlay buff 0 got)) {w with conn := c}) :
    Wp (Sys env me) may (receive buff size) post w :=
  wp_bind (wp_readn buff _ reads fun _ got c received => after got c received)

theorem wp_writen {post : Except Halt Int → World → Prop} (source : Source) (len : Int)
    (writes : ∀ m n, m + n = len.toNat → 0 < n → may {w with conn := {w.conn with
      output := w.conn.output ++ (source.bytes w.store.files).take m}} (.write (source.advance m) n))
    (after : ∀ ret sent, Sent env (source.bytes w.store.files) len.toNat sent →
      post (.ok ret) {w with conn := {w.conn with output := w.conn.output ++ sent}}) :
    Wp (Sys env me) may (writen source len) post w := by
  -- Between two writes the output has grown by a prefix and the source moved past it.
  refine ⟨fun s v => ∃ n, v = {w with conn := {w.conn with
      output := w.conn.output ++ (source.bytes w.store.files).take n}} ∧
    (n : Int) = len - s.1 ∧ (0 ≤ s.1 ∨ n = 0) ∧ n ≤ (source.bytes w.store.files).length ∧
    s.2 = source.advance n,?_,?_⟩
  · exact ⟨0,by simp,by simp,.inr rfl,by simp,(source.advance_zero).symm⟩
  · rintro ⟨left,_⟩ v ⟨n,rfl,count,sign,inside,rfl⟩
    dsimp only at count sign ⊢
    have size : ((source.bytes w.store.files).take n).length = n := by simp [inside]
    have upTo (short : n ≤ len.toNat) : (source.bytes w.store.files).take n <+:
        (source.bytes w.store.files).take len.toNat := List.take_prefix_take_left short
    split_ifs with more
    · refine ⟨writes n _ (by omega) (by omega),fun r v' answered => ?_⟩
      match r with
      | .eintr => subst answered; exact ⟨n,rfl,count,sign,inside,rfl⟩
      | .failed =>
        obtain ⟨fails,rfl⟩ := answered
        refine after _ _ ⟨upTo (by omega),fun _ => fails.imp_right fun less => ?_⟩
        rw [Source.bytes_advance,List.length_drop] at less
        dsimp only at less
        omega
      | .count k =>
        obtain ⟨positive,fits,ready,rfl⟩ := answered
        rw [Source.bytes_advance,List.length_drop] at ready
        dsimp only at ready
        have nonzero : k ≠ 0 := by omega
        simp only [Prog.ret_bind,if_neg nonzero]
        refine ⟨n + k,?_,by push_cast; omega,.inl (by omega),by omega,?_⟩
        · rw [Source.bytes_advance,List.append_assoc,← List.take_add]
        · exact source.advance_advance n k
    · refine after _ _ ⟨upTo (by omega),fun less => ?_⟩
      omega

theorem wp_send {post : Except Halt Unit → World → Prop} (msg : Source) (size : Int)
    (writes : ∀ m n, m + n = (toInt size).toNat → 0 < n → may {w with conn := {w.conn with
      output := w.conn.output ++ (msg.bytes w.store.files).take m}} (.write (msg.advance m) n))
    (after : ∀ sent, Sent env (msg.bytes w.store.files) (toInt size).toNat sent →
      post (.ok ()) {w with conn := {w.conn with output := w.conn.output ++ sent}}) :
    Wp (Sys env me) may (send msg size) post w :=
  wp_bind (wp_writen msg _ writes fun _ sent done => after sent done)

/-- A read of a stream that has come to its end. -/
theorem can_read_end {α : Type} {post : Except Halt α → World → Prop} {n : Nat} {job : ReadResult → Job α}
    (empty : w.conn.input = []) (ends : w.conn.ended = true ∨ env.readFails w.conn)
    (eof : Can (Sys env me) (job .eof) post w) (failed : Can (Sys env me) (job .failed) post w) :
    Can (Sys env me) (.call (.read n) job) post w := by
  rcases ends with closed | fails
  · exact can_call (r := ReadResult.eof) ⟨empty,closed,rfl⟩ eof
  · exact can_call (r := ReadResult.failed) ⟨fails,rfl⟩ failed

/-- What has arrived is received, if it is enough or the stream then ends. -/
theorem can_receive_end {post : Except Halt Bytes → World → Prop} (buff : Bytes) {size : Int}
    (arrives : (toInt size).toNat ≤ w.conn.input.length ∨ w.conn.ended = true ∨
      env.readFails {w.conn with input := []})
    (after : post (.ok (overlay buff 0 (w.conn.input.take (toInt size).toNat)))
      {w with conn := {w.conn with input := w.conn.input.drop (toInt size).toNat}}) :
    Can (Sys env me) (receive buff size) post w := by
  have finished : Can (Sys env me) (.ret (overlay buff 0 (w.conn.input.take (toInt size).toNat))) post
      {w with conn := {w.conn with input := w.conn.input.drop (toInt size).toNat}} := can_ret after
  have split := (List.take_append_drop (toInt size).toNat w.conn.input).symm
  obtain ⟨got,same⟩ : ∃ got, got = w.conn.input.take (toInt size).toNat := ⟨_,rfl⟩
  obtain ⟨rest,left⟩ : ∃ rest, rest = w.conn.input.drop (toInt size).toNat := ⟨_,rfl⟩
  have bound : got.length = min (toInt size).toNat w.conn.input.length := by rw [same,List.length_take]
  have remains : rest.length = w.conn.input.length - (toInt size).toNat := by rw [left,List.length_drop]
  rw [← same,← left] at finished split
  apply can_bind
  apply can_loop
  by_cases more : toInt size > 0
  · simp only [if_pos more]
    by_cases none : got = []
    · -- Nothing comes: the stream has come to its end.
      have empty : w.conn.input = [] := by
        rw [none,List.length_nil] at bound
        exact List.length_eq_zero_iff.mp (by omega)
      have unread : rest = w.conn.input := by rw [split,none,List.nil_append]
      have ends := arrives.resolve_left fun enough => by
        rw [empty,List.length_nil] at enough
        omega
      rw [unread,none,overlay_nil] at finished
      rw [← empty] at ends
      exact can_read_end empty ends (can_ret (can_ret finished)) (can_ret (can_ret finished))
    · -- One read brings what there is; the loop goes round again to see that it is all.
      refine can_call (r := ReadResult.data got) ⟨none,by omega,rest,split,rfl⟩ (can_ret ?_)
      have start : (toInt size - toInt size).toNat = 0 := by omega
      rw [start]
      apply can_loop
      by_cases whole : toInt size - got.length > 0
      · have ends := arrives.resolve_left fun enough => by omega
        have empty : rest = [] := List.length_eq_zero_iff.mp (by omega)
        rw [← empty] at ends
        simp only [if_pos whole]
        exact can_read_end empty ends (can_ret (can_ret finished)) (can_ret (can_ret finished))
      · simp only [if_neg whole]
        exact can_ret (can_ret finished)
  · have zero : (toInt size).toNat = 0 := by omega
    obtain rfl : got = [] := by rw [same,zero,List.take_zero]
    obtain rfl : rest = w.conn.input := by rw [left,zero,List.drop_zero]
    simp only [if_neg more]
    rw [overlay_nil] at finished
    exact can_ret (can_ret finished)

theorem can_receive {post : Except Halt Bytes → World → Prop} (buff : Bytes) {size : Int}
    (arrives : (toInt size).toNat ≤ w.conn.input.length ∨ w.conn.ended = true)
    (after : post (.ok (overlay buff 0 (w.conn.input.take (toInt size).toNat)))
      {w with conn := {w.conn with input := w.conn.input.drop (toInt size).toNat}}) :
    Can (Sys env me) (receive buff size) post w :=
  can_receive_end buff (arrives.imp_right .inl) after

theorem can_receive_whole {post : Except Halt Bytes → World → Prop} (buff : Bytes) {size : Int}
    {got rest : Bytes} (input : w.conn.input = got ++ rest) (length : got.length = (toInt size).toNat)
    (after : post (.ok (overlay buff 0 got)) {w with conn := {w.conn with input := rest}}) :
    Can (Sys env me) (receive buff size) post w := by
  refine can_receive buff (.inl ?_) ?_
  · rw [input,List.length_append]
    omega
  · rwa [input,List.take_left' length,List.drop_left' length]

theorem can_send {post : Except Halt Unit → World → Prop} (msg : Source) (size : Int)
    (after : post (.ok ()) {w with conn := {w.conn with
      output := w.conn.output ++ (msg.bytes w.store.files).take (toInt size).toNat}}) :
    Can (Sys env me) (send msg size) post w := by
  apply can_bind
  apply can_loop
  by_cases more : toInt size > 0
  · simp only [if_pos more]
    by_cases empty : msg.bytes w.store.files = []
    · refine can_call (r := WriteResult.failed) ⟨.inr ?_,rfl⟩ (can_ret (can_ret (can_ret ?_)))
      · rw [empty,List.length_nil]
        omega
      · simpa [empty] using after
    -- One write sends what there is; what is missing then makes the next one fail.
    have some := List.length_pos_iff.mpr empty
    obtain ⟨k,rfl⟩ : ∃ k, k = min (toInt size).toNat (msg.bytes w.store.files).length := ⟨_,rfl⟩
    have same : (msg.bytes w.store.files).take (min (toInt size).toNat (msg.bytes w.store.files).length) =
        (msg.bytes w.store.files).take (toInt size).toNat := by simp [List.take_eq_take_iff]
    have nonzero : min (toInt size).toNat (msg.bytes w.store.files).length ≠ 0 := by omega
    refine can_call (r := WriteResult.count _) ⟨Nat.pos_of_ne_zero nonzero,by omega,by omega,rfl⟩ ?_
    simp only [Prog.ret_bind,if_neg nonzero,same]
    apply can_ret
    apply can_loop
    by_cases rest : toInt size - (min (toInt size).toNat (msg.bytes w.store.files).length : Nat) > 0
    · simp only [if_pos rest]
      refine can_call (r := WriteResult.failed) ⟨.inr ?_,rfl⟩ (can_ret (can_ret (can_ret after)))
      rw [Source.bytes_advance,List.length_drop]
      dsimp only
      omega
    · simp only [if_neg rest]
      exact can_ret (can_ret (can_ret after))
  · have none : (toInt size).toNat = 0 := by omega
    simp only [if_neg more]
    refine can_ret (can_ret (can_ret ?_))
    simpa [none] using after

end specifications

end FilediskServer.SocketIO
