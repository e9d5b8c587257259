import FilediskServer.ReadLine

/-! What `readLine` takes off the stream and leaves in its buffer, and what it returns. -/
namespace FilediskServer.LineResults
open Interaction Bytes CusInfo Redis Filetree Disk Calls SocketIO UploadHistory UploadProtocol ExactReads Lines
open ReadLine

def Failed (schedule : List (Event lineSignature)) : Prop := ∃ e ∈ schedule, RecvFailed e

def Ended (schedule : List (Event lineSignature)) : Prop := ∃ e ∈ schedule, RecvEnded e

theorem not_failed {schedule : List (Event lineSignature)} (going : Going schedule) : ¬ Failed schedule :=
  fun ⟨e,member,failed⟩ => (going e member).1 failed

theorem not_ended {schedule : List (Event lineSignature)} (going : Going schedule) : ¬ Ended schedule :=
  fun ⟨e,member,ended⟩ => (going e member).2 ended

theorem failed_snoc {schedule : List (Event lineSignature)} {e : Event lineSignature} (going : Going schedule)
    (fine : ¬ RecvFailed e) : ¬ Failed (schedule ++ [e]) := by
  rintro ⟨e',member,failed⟩
  rcases List.mem_append.mp member with old | new
  · exact (going e' old).1 failed
  · obtain rfl := List.mem_singleton.mp new
    exact fine failed

/-- Which line is stored, what is taken of the stream for it and what is returned. -/
inductive Result (buf : Bytes) (len : Int) (w : World) (reads : Prop) (schedule : List (Event lineSignature)) :
    Int → Bytes → World → Prop
  | failed {held : Bytes} {v : World} (failed : Failed schedule) : Result buf len w reads schedule (-1) held v
  | stored {l buf' rest : Bytes} {ret : Int} (going : ¬ Failed schedule)
      (is : IsLine newline (len - 1).toNat (peeked schedule) l) (stored : Stored buf len l buf')
      (count : ¬ Ended schedule ∧ ret = l.length ∨
        Ended schedule ∧ (l.length : Int) < len - 1 ∧ ret = l.length - (len - 1 - l.length))
      (taken : reads → IsLine newline (len - 1).toNat w.conn.input l ∧ w.conn.input = l ++ rest ∧
        (Ended schedule ↔ newline ∉ w.conn.input ∧ (w.conn.input.length : Int) < len - 1)) :
      Result buf len w reads schedule ret buf' (World.unread w rest)

theorem isLine_short {l : Bytes} {room : Nat} (plain : newline ∉ l) (fits : l.length ≤ room) :
    IsLine newline room l l := by
  have all : l.take room = l := List.take_of_length_le fits
  rw [← all] at plain
  have whole := IsLine.whole plain
  rwa [all] at whole

theorem isLine_full {l rest : Bytes} {room : Nat} (plain : newline ∉ l) (size : l.length = room) :
    IsLine newline room (l ++ rest) l := by
  have all : (l ++ rest).take room = l := List.take_left' size
  rw [← all] at plain
  have whole := IsLine.whole plain
  rwa [all] at whole

theorem result_of_finished {buf : Bytes} {len : Int} {w w' : World} {reads : Prop}
    {schedule : List (Event lineSignature)} {out : Except Halt (Int × Bytes)}
    (finished : Finished buf len w reads schedule out w') :
    ∃ ret buf', out = .ok (ret,buf') ∧ Result buf len w reads schedule ret buf' w' := by
  cases finished with
  | @failed schedule n held v going => exact ⟨_,_,rfl,.failed ⟨⟨.inr n,ReadResult.failed⟩,by simp,trivial⟩⟩
  | @found schedule front tail rest buf' going peeks plain fits stored taken =>
    have size : ((front ++ [newline]).length : Int) = front.length + 1 := by simp
    refine ⟨_,_,rfl,.stored (not_failed going) ?_ stored (.inl ⟨(not_ended going),size.symm⟩) fun succeed => ?_⟩
    · rw [peeks]
      exact .found rfl plain (by omega)
    · have input := taken succeed
      refine ⟨.found input plain (by omega),by simp [input],iff_of_false (not_ended going) fun short => ?_⟩
      exact short.1 (by simp [input])
  | @full schedule l rest buf' going peeks plain size stored taken =>
    have room : l.length = (len - 1).toNat := by omega
    refine ⟨_,_,rfl,.stored (not_failed going) ?_ stored (.inl ⟨(not_ended going),rfl⟩) fun succeed => ?_⟩
    · rw [peeks]
      exact isLine_short plain room.le
    · have input := taken succeed
      rw [input]
      refine ⟨isLine_full plain room,rfl,iff_of_false (not_ended going) fun short => ?_⟩
      have longer := short.2
      rw [List.length_append] at longer
      omega
  | @ended schedule n l buf' going peeks plain less stored taken =>
    have last : Ended (schedule ++ [⟨.inr n,ReadResult.eof⟩]) :=
    ⟨⟨.inr n,ReadResult.eof⟩,by simp,trivial⟩
    have same : peeked (schedule ++ [⟨.inr n,ReadResult.eof⟩]) = l := by
      rw [peeked_snoc,peeks]
      exact List.append_nil l
    refine ⟨_,_,rfl,.stored (failed_snoc going id) ?_ stored (.inr ⟨last,less,rfl⟩) fun succeed => ?_⟩
    · rw [same]
      exact isLine_short plain (by omega)
    · have input := taken succeed
      rw [input]
      exact ⟨isLine_short plain (by omega),(List.append_nil l).symm,iff_of_true last ⟨plain,less⟩⟩

theorem cstr_of_stored {buf l buf' : Bytes} {len : Int} (stored : Stored buf len l buf') : cstr buf' = cstr l := by
  have all : buf' = l ++ 0 :: buf'.drop (l.length + 1) := by
    conv_lhs => rw [← List.take_append_drop (l.length + 1) buf',stored.held]
    rw [List.append_assoc]
    rfl
  rw [all]
  exact cstr_terminated l _

/-- The line `l` is in the buffer, with its end, and taken off the stream. -/
structure Takes (buf : Bytes) (len : Int) (w : World) (l buf' : Bytes) (w' : World) : Prop where
  stored : Stored buf len l buf'
  string : 0 ∉ l → cstr buf' = l
  taken : w' = World.unread w (w.conn.input.drop l.length)

/-- What is returned is -1 for an error and otherwise the length of the string left in the buffer. -/
structure ReturnsLength (len : Int) (schedule : List (Event lineSignature)) (ret : Int) (buf' : Bytes) : Prop
    where
  failed : ret = -1 ↔ Failed schedule
  length : ¬ Failed schedule → ret = (cstr buf').length ∧ 0 ≤ ret ∧ ret ≤ len - 1

/-- The same of the number of bytes stored, which can include a NUL. -/
structure ReturnsStored (schedule : List (Event lineSignature)) (ret : Int) (l : Bytes) : Prop where
  failed : ret = -1 ↔ Failed schedule
  count : ¬ Failed schedule → ret = l.length

section results
variable {env : Env} {me : Nat} {fails : Conn → Prop} {buf buf' : Bytes} {len ret : Int} {w w' : World}
  {schedule : List (Event lineSignature)} {out : Except Halt (Int × Bytes)}

theorem result_of_run (positive : 1 ≤ len) (enough : len ≤ buf.length)
    (run : Runs (Traced (Socket env me fails)) (readLine buf len) ([],w) out (schedule,w')) :
    ∃ ret buf', out = .ok (ret,buf') ∧
      Result buf len w (∀ c, ¬ env.readFails c) schedule ret buf' w' := by
  have finished := wp_runs run (wp_readLine enough positive)
  exact result_of_finished finished

theorem not_failed_of_run {α : Type} {p : LineJob α} {out : Except Halt α}
    (run : Runs (Traced (Socket env me fun _ => False)) p ([],w) out (schedule,w')) : ¬ Failed schedule := by
  have kept (x : List (Event lineSignature) × World) (o : lineSignature.Op) (r : lineSignature.Res o)
      (x' : List (Event lineSignature) × World) (fine : ¬ Failed x.1)
      (answered : Traced (Socket env me fun _ => False) x o r x') : ¬ Failed x'.1 := by
    rw [answered.1]
    rintro ⟨e,member,failed⟩
    rcases List.mem_append.mp member with old | new
    · exact fine ⟨e,old,failed⟩
    · obtain rfl := List.mem_singleton.mp new
      have answer := answered.2
      match o, r with
      | .inl _, _ => exact failed
      | .inr _, .data _ | .inr _, .eof | .inr _, .eintr => exact failed
      | .inr _, .failed => exact answer.2
  have start : ¬ Failed [] := fun ⟨_,inside,_⟩ => List.not_mem_nil inside
  have holds := wp_runs run (wp_kept (K := fun x => ¬ Failed x.1) kept start (wp_true p))
  exact holds.2

theorem readLine_takes_line (positive : 1 ≤ len) (enough : len ≤ buf.length) (reads : ∀ c, ¬ env.readFails c) :
    ∃ l, IsLine newline (len - 1).toNat w.conn.input l ∧ (l.length : Int) < len ∧
      (∀ out w', Runs (Socket env me fun _ => False) (readLine buf len) w out w' →
        ∃ ret buf', out = .ok (ret,buf') ∧ Takes buf len w l buf' w') ∧
      (w.conn.ended = true ∨ newline ∈ w.conn.input ∨ len - 1 ≤ w.conn.input.length → ∀ n,
        Total (Bounded Signal (Socket env me fun _ => False)) (fun _ _ => True) (readLine buf len) (w,n)) := by
  have is := isLine_line newline (len - 1).toNat w.conn.input
  have bound := is.bound
  refine ⟨_,is,by omega,fun out w' run => ?_,fun comes n => total_readLine reads enough comes⟩
  have noted : ∃ schedule, Runs (Traced (Socket env me fun _ => False)) (readLine buf len) ([],w) out
      (schedule,w') := runs_tracked run []
  obtain ⟨schedule,traced⟩ := noted
  obtain ⟨ret,buf',rfl,result⟩ := result_of_run positive enough traced
  refine ⟨ret,buf',rfl,?_⟩
  cases result with
  | failed failed => exact (not_failed_of_run traced failed).elim
  | stored _ _ stored _ taken =>
    obtain ⟨is,input,-⟩ := taken reads
    rw [← is.eq_line]
    refine ⟨stored,fun plain => (cstr_of_stored stored).trans (cstr_eq_self plain),?_⟩
    rw [input,List.drop_left]

def sampleLine (b : Bytes) : World := ⟨⟨b,true,[]⟩,sampleStart⟩

theorem sample_line : ∃ l, IsLine newline 4 (ascii "ab\ncd") l ∧ (l.length : Int) < 5 ∧
    (∀ out w', Runs (Socket (calm []) 0 fun _ => False) (readLine (zeros 8) 5) (sampleLine (ascii "ab\ncd"))
      out w' → ∃ ret buf', out = .ok (ret,buf') ∧ Takes (zeros 8) 5 (sampleLine (ascii "ab\ncd")) l buf' w') ∧
    ((sampleLine (ascii "ab\ncd")).conn.ended = true ∨ newline ∈ ascii "ab\ncd" ∨ (5 - 1 : Int) ≤ 5 → ∀ n,
      Total (Bounded Signal (Socket (calm []) 0 fun _ => False)) (fun _ _ => True) (readLine (zeros 8) 5)
        (sampleLine (ascii "ab\ncd"),n)) :=
  @readLine_takes_line (calm []) 0 (zeros 8) 5 (sampleLine (ascii "ab\ncd")) (by decide) (by decide) fun _ => id

/-- The line that starts the bytes which the `recv`s gave. -/
abbrev seen (len : Int) (schedule : List (Event lineSignature)) : Bytes :=
  line newline (len - 1).toNat (peeked schedule)

theorem returnsLength_iff (positive : 1 ≤ len)
    (result : Result buf len w (∀ c, ¬ env.readFails c) schedule ret buf' w') :
    ReturnsLength len schedule ret buf' ↔ Failed schedule ∨
      ¬ Ended schedule ∧ 0 ∉ seen len schedule ∨
      Ended schedule ∧ ((cstr (seen len schedule)).length : Int) + (len - 1) = 2 * (seen len schedule).length := by
  cases result with
  | failed failed => exact iff_of_true ⟨iff_of_true rfl failed,fun fine => absurd failed fine⟩ (.inl failed)
  | @stored l _ rest _ fine is stored count taken =>
    have bound := is.bound
    have string := cstr_of_stored stored
    have shorter := length_cstr_le l
    have plain : (cstr l).length = l.length ↔ 0 ∉ l := length_cstr_iff
    rw [seen,← is.eq_line,← plain]
    constructor
    · intro returns
      have length := (returns.length fine).1
      rw [string] at length
      rcases count with ⟨going,whole⟩ | ⟨ended,less,short⟩
      · exact .inr (.inl ⟨going,by omega⟩)
      · exact .inr (.inr ⟨ended,by omega⟩)
    · intro condition
      have length : ret = (cstr l).length := by
        rcases count with ⟨going,whole⟩ | ⟨ended,less,short⟩
        · rcases condition with failed | ⟨-,same⟩ | ⟨ended,-⟩
          · exact absurd failed fine
          · omega
          · exact absurd ended going
        · rcases condition with failed | ⟨going,-⟩ | ⟨-,same⟩
          · exact absurd failed fine
          · exact absurd ended going
          · omega
      refine ⟨iff_of_false (by omega) fine,fun _ => ⟨?_,by omega,?_⟩⟩
      · rw [string,length]
      · rcases count with ⟨-,whole⟩ | ⟨-,less,short⟩ <;> omega

theorem returnsStored_iff (result : Result buf len w (∀ c, ¬ env.readFails c) schedule ret buf' w') :
    ReturnsStored schedule ret (seen len schedule) ↔ Failed schedule ∨ ¬ Ended schedule := by
  cases result with
  | failed failed => exact iff_of_true ⟨iff_of_true rfl failed,fun fine => absurd failed fine⟩ (.inl failed)
  | @stored l _ rest _ fine is stored count taken =>
    rw [seen,← is.eq_line]
    rcases count with ⟨going,whole⟩ | ⟨ended,less,short⟩
    · exact iff_of_true ⟨iff_of_false (by omega) fine,fun _ => whole⟩ (.inr going)
    · refine iff_of_false (fun returns => ?_) fun condition => condition.elim fine fun going => going ended
      have count := returns.count fine
      omega

/-- `readLine` returns the length of what it stored if an error came or no `recv` saw the end of the
stream; where nothing fails, that is where the stream has a newline or enough bytes. -/
theorem line_length_iff (positive : 1 ≤ len) (enough : len ≤ buf.length)
    (run : Runs (Traced (Socket env me fails)) (readLine buf len) ([],w) (.ok (ret,buf')) (schedule,w')) :
    (ReturnsLength len schedule ret buf' ↔ Failed schedule ∨
      ¬ Ended schedule ∧ 0 ∉ seen len schedule ∨
      Ended schedule ∧ ((cstr (seen len schedule)).length : Int) + (len - 1) = 2 * (seen len schedule).length) ∧
    (ReturnsStored schedule ret (seen len schedule) ↔ Failed schedule ∨ ¬ Ended schedule) ∧
    ((∀ c, ¬ env.readFails c) → ¬ Failed schedule →
      seen len schedule = line newline (len - 1).toNat w.conn.input ∧
      (Ended schedule ↔ newline ∉ w.conn.input ∧ (w.conn.input.length : Int) < len - 1)) := by
  obtain ⟨ret',held,same,result⟩ := result_of_run positive enough run
  cases same
  refine ⟨returnsLength_iff positive result,returnsStored_iff result,fun reads fine => ?_⟩
  cases result with
  | failed failed => exact absurd failed fine
  | stored _ is _ _ taken =>
    obtain ⟨is',-,ended⟩ := taken reads
    exact ⟨is.eq_line.symm.trans is'.eq_line,ended⟩

end results

section sample

/-- A socket on which nothing fails and every call is answered in full. -/
def answer : Responder lineSignature World := fun w o =>
  match o with
  | .inl o => respond [] 0 w o
  | .inr o =>
    if w.conn.input ≠ [] ∧ o.left ≠ 0 then some (.data (w.conn.input.take o.left),w)
    else if w.conn.input = [] ∧ w.conn.ended = true then some (.eof,w)
    else none

theorem answer_within : answer.Within (Socket (calm []) 0 fun _ => False) := by
  intro w o r w' answered
  match o with
  | .inl o => exact respond_within [] 0 w o r w' answered
  | .inr o =>
    simp only [answer] at answered
    split_ifs at answered with some ended
    · cases answered
      exact ⟨rfl,by simpa [List.take_eq_nil_iff,or_comm] using some,List.length_take_le ..,List.take_prefix ..⟩
    · cases answered
      exact ⟨rfl,ended⟩

theorem run_answered {b buf' : Bytes} {size : Nat} {ret : Int}
    (ran : ((answer.tracing.run 40 (readLine (zeros size) size) ([],sampleLine b)).map fun x => x.1) =
      some (.ok (ret,buf'))) :
    ∃ schedule w', Runs (Traced (Socket (calm []) 0 fun _ => False)) (readLine (zeros size) size)
      ([],sampleLine b) (.ok (ret,buf')) (schedule,w') := by
  obtain ⟨⟨_,schedule,w'⟩,finished,rfl⟩ := Option.map_eq_some_iff.mp ran
  exact ⟨schedule,w',Responder.run_sound (Responder.tracing_within answer_within) 40 _ _ _ _ finished⟩

/-- One byte and then the end, with room for three: -1 is returned. -/
theorem sample_short : ∃ schedule w', Runs (Traced (Socket (calm []) 0 fun _ => False)) (readLine (zeros 4) 4)
    ([],sampleLine [97]) (.ok (-1,[97,0,0,0])) (schedule,w') :=
  run_answered (by decide +kernel)

theorem sample_line_length : ∃ schedule w',
    Runs (Traced (Socket (calm []) 0 fun _ => False)) (readLine (zeros 4) 4) ([],sampleLine [97])
      (.ok (-1,[97,0,0,0])) (schedule,w') ∧
    (ReturnsLength 4 schedule (-1) [97,0,0,0] ↔ Failed schedule ∨ ¬ Ended schedule ∧ 0 ∉ seen 4 schedule ∨
      Ended schedule ∧ ((cstr (seen 4 schedule)).length : Int) + (4 - 1) = 2 * (seen 4 schedule).length) := by
  obtain ⟨schedule,w',run⟩ := sample_short
  exact ⟨schedule,w',run,(line_length_iff (by decide) (by decide) run).1⟩

theorem short_line_negative : ¬ ∀ (env : Env) (me : Nat) (fails : Conn → Prop) (buf buf' : Bytes) (len ret : Int)
    (w w' : World) (schedule : List (Event lineSignature)), 1 ≤ len → len ≤ buf.length →
    Runs (Traced (Socket env me fails)) (readLine buf len) ([],w) (.ok (ret,buf')) (schedule,w') →
    ReturnsLength len schedule ret buf' := by
  intro claim
  obtain ⟨schedule,w',run⟩ := sample_short
  have returns := claim _ _ _ _ _ _ _ _ _ _ (by decide) (by decide) run
  exact not_failed_of_run run (returns.failed.mp rfl)

end sample

end FilediskServer.LineResults
