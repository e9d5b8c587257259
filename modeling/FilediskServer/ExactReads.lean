import FilediskServer.Library.Traces
import FilediskServer.UploadProtocol

/-! What `readn` returns and leaves in its buffer, for every schedule of answers to its reads. -/
namespace FilediskServer.ExactReads
open Interaction Bytes Calls SocketIO UploadProtocol

def Failure : Event signature → Prop
  | ⟨.read _,.failed⟩ => True
  | _ => False

def EndOfFile : Event signature → Prop
  | ⟨.read _,.eof⟩ => True
  | _ => False

def bytesOf : Event signature → Bytes
  | ⟨.read _,.data b⟩ => b
  | _ => []

def arrived (schedule : List (Event signature)) : Bytes := schedule.flatMap bytesOf

/-- An error came before `len` bytes had arrived or the end was seen. -/
def FailsEarly (len : Int) (schedule : List (Event signature)) : Prop :=
  ∃ before event after, schedule = before ++ event :: after ∧ Failure event ∧
    ((arrived before).length : Int) < len ∧ ∀ e ∈ before, ¬ EndOfFile e

/-- Nothing but bytes and signals. -/
def Quiet (schedule : List (Event signature)) : Prop := ∀ e ∈ schedule, ¬ Failure e ∧ ¬ EndOfFile e

theorem quiet_snoc {schedule : List (Event signature)} {e : Event signature} (quiet : Quiet schedule)
    (going : ¬ Failure e ∧ ¬ EndOfFile e) : Quiet (schedule ++ [e]) :=
  List.forall_mem_append.mpr ⟨quiet,List.forall_mem_singleton.mpr going⟩

theorem arrived_snoc (schedule : List (Event signature)) (e : Event signature) :
    arrived (schedule ++ [e]) = arrived schedule ++ bytesOf e := by
  simp [arrived]

def World.unread (w : World) (rest : Bytes) : World := {w with conn := {w.conn with input := rest}}

inductive Finished (buf : Bytes) (len : Int) (w : World) :
    List (Event signature) → Except Halt (Int × Bytes) → World → Prop
  | failed {schedule : List (Event signature)} {n : Nat} {got rest : Bytes} (quiet : Quiet schedule)
      (all : arrived schedule = got) (taken : w.conn.input = got ++ rest) (less : (got.length : Int) < len) :
      Finished buf len w (schedule ++ [⟨.read n,.failed⟩]) (.ok (-1,overlay buf 0 got)) (World.unread w rest)
  | ended {schedule : List (Event signature)} {n : Nat} (quiet : Quiet schedule)
      (less : (w.conn.input.length : Int) < len) :
      Finished buf len w (schedule ++ [⟨.read n,.eof⟩])
        (.ok (w.conn.input.length,overlay buf 0 w.conn.input)) (World.unread w [])
  | full {schedule : List (Event signature)} {got rest : Bytes} (quiet : Quiet schedule)
      (taken : w.conn.input = got ++ rest) (size : got.length = len.toNat) :
      Finished buf len w schedule (.ok (got.length,overlay buf 0 got)) (World.unread w rest)

section runs
variable {env : Env} {me : Nat} {w : World}

theorem wp_readn_finished (buf : Bytes) (len : Int) :
    Wp (Traced (Sys env me)) (fun _ _ => True) (readn buf len)
      (fun out x => Finished buf len w x.1 out x.2) ([],w) := by
  -- Between two reads all that arrived starts the buffer, and the rest is to be read.
  refine ⟨fun s x => ∃ got rest, x.2 = World.unread w rest ∧ w.conn.input = got ++ rest ∧
    arrived x.1 = got ∧ Quiet x.1 ∧ (got.length : Int) = len - s.1 ∧ (0 ≤ s.1 ∨ got = []) ∧
    s.2 = overlay buf 0 got,?_,?_⟩
  · exact ⟨[],w.conn.input,rfl,rfl,rfl,nofun,by simp,.inr rfl,(overlay_nil buf).symm⟩
  · rintro ⟨left,held⟩ ⟨schedule,v⟩ ⟨got,rest,here,taken,all,quiet,count,sign,rfl⟩
    dsimp only at here all quiet count sign ⊢
    subst here
    split_ifs with more
    · refine ⟨trivial,fun r x answered => ?_⟩
      obtain ⟨trace,v⟩ := x
      obtain ⟨noted,answer⟩ := answered
      dsimp only at noted answer
      subst noted
      have less : (got.length : Int) < len := by omega
      cases r with
      | eintr =>
        obtain rfl := answer
        refine ⟨got,rest,rfl,taken,?_,quiet_snoc quiet ⟨id,id⟩,count,sign,rfl⟩
        rw [arrived_snoc,all]
        exact List.append_nil got
      | failed =>
        obtain ⟨-,rfl⟩ := answer
        exact .failed quiet all taken less
      | eof =>
        obtain ⟨none,-,rfl⟩ := answer
        obtain rfl : rest = [] := none
        rw [List.append_nil] at taken
        rw [← taken] at less count ⊢
        rw [← count]
        exact .ended quiet less
      | data b =>
        obtain ⟨-,fits,last,input,rfl⟩ := answer
        obtain rfl : rest = b ++ last := input
        obtain ⟨length,same⟩ := overlay_read buf b count
        refine ⟨got ++ b,last,rfl,?_,?_,quiet_snoc quiet ⟨id,id⟩,length,.inl (by dsimp only; omega),same⟩
        · rw [taken,List.append_assoc]
        · rw [arrived_snoc,all]
          rfl
    · have size : got.length = len.toNat := by
        rcases sign with positive | rfl
        · omega
        · rw [List.length_nil] at count ⊢
          omega
      rw [← count]
      exact .full quiet taken size

end runs

structure Exact (buf : Bytes) (len : Int) (w : World) (schedule : List (Event signature)) (ret : Int)
    (buf' : Bytes) (w' : World) : Prop where
  error : ret = -1 ↔ FailsEarly len schedule
  bytes : ret ≠ -1 → ∃ k : Nat, ret = k ∧ (k : Int) ≤ max len 0 ∧
    buf'.take k = w.conn.input.take k ∧ buf'.drop k = buf.drop k ∧
    w' = World.unread w (w.conn.input.drop k) ∧ k = min len.toNat w.conn.input.length ∧
    ((k : Int) < len → ∃ e ∈ schedule, EndOfFile e)

theorem not_failsEarly {len : Int} {schedule : List (Event signature)}
    (none : ∀ e ∈ schedule, ¬ Failure e) : ¬ FailsEarly len schedule := by
  rintro ⟨before,event,after,rfl,failure,-⟩
  exact none event (by simp) failure

theorem exact_of_finished {buf : Bytes} {len : Int} {w w' : World} {schedule : List (Event signature)}
    {out : Except Halt (Int × Bytes)} (finished : Finished buf len w schedule out w') :
    ∃ ret buf', out = .ok (ret,buf') ∧ Exact buf len w schedule ret buf' w' := by
  cases finished with
  | @failed schedule n got rest quiet all taken less =>
    refine ⟨_,_,rfl,⟨iff_of_true rfl ?_,fun other => absurd rfl other⟩⟩
    exact ⟨schedule,_,[],rfl,trivial,by rwa [all],fun e member => (quiet e member).2⟩
  | @ended schedule n quiet less =>
    have none : ∀ e ∈ schedule ++ [⟨.read n,.eof⟩], ¬ Failure e := by
      intro e member
      rcases List.mem_append.mp member with old | new
      · exact (quiet e old).1
      · obtain rfl := List.mem_singleton.mp new
        exact id
    refine ⟨_,_,rfl,⟨iff_of_false (by omega) (not_failsEarly none),fun _ => ?_⟩⟩
    refine ⟨w.conn.input.length,rfl,by omega,?_,?_,?_,by omega,fun _ => ?_⟩
    · simp [overlay]
    · simp [overlay]
    · rw [List.drop_length]
    · exact ⟨⟨.read n,.eof⟩,by simp,trivial⟩
  | @full _ got rest quiet taken size =>
    refine ⟨_,_,rfl,⟨iff_of_false (by omega) (not_failsEarly fun e member => (quiet e member).1),fun _ => ?_⟩⟩
    refine ⟨got.length,rfl,by omega,?_,?_,?_,?_,fun less => by omega⟩
    · simp [overlay,taken]
    · simp [overlay]
    · rw [taken,List.drop_left]
    · rw [taken,List.length_append]
      omega

/-- `readn` is exact in every finished run, and every run finishes once signals cease, if
enough bytes come or the stream ends. -/
theorem readn_exact (env : Env) (me : Nat) (buf : Bytes) (len : Int) (w : World) :
    (∀ schedule out w', Runs (Traced (Sys env me)) (readn buf len) ([],w) out (schedule,w') →
      ∃ ret buf', out = .ok (ret,buf') ∧ Exact buf len w schedule ret buf' w') ∧
    (len ≤ w.conn.input.length ∨ w.conn.ended = true → ∀ n,
      Total (Bounded Interrupted (Sys env me)) (fun _ _ => True) (readn buf len) (w,n)) := by
  refine ⟨fun schedule out w' run => ?_,total_readn buf len⟩
  have finished := wp_runs run (wp_readn_finished buf len)
  exact exact_of_finished finished

end FilediskServer.ExactReads
