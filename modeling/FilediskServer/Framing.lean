import FilediskServer.Library.Parties
import FilediskServer.SocketIO

/-! Two endpoints of one connection, joined by a channel that holds a bounded number of
bytes. One writes messages with `writen`, the other reads as many bytes as each has with
`readn`. -/
namespace FilediskServer.Framing
open Interaction Bytes Calls SocketIO

/-- The bytes under way, how many were ever written and all that were ever read. -/
structure Channel where
  held : Bytes
  written : Nat
  read : Bytes

inductive Writes (capacity : Nat) (c : Channel) : (call : Call) → call.Res → Channel → Prop
  | count {b : Bytes} {left n : Nat} (positive : 0 < n) (fits : n ≤ left) (inside : n ≤ b.length)
      (room : c.held.length + n ≤ capacity) :
      Writes capacity c (.write (.buf b) left) (.count n) ⟨c.held ++ b.take n,c.written + n,c.read⟩
  | eintr {b : Bytes} {left : Nat} : Writes capacity c (.write (.buf b) left) .eintr c

inductive Reads (c : Channel) : (call : Call) → call.Res → Channel → Prop
  | data {b rest : Bytes} {left : Nat} (some : b ≠ []) (fits : b.length ≤ left)
      (held : c.held = b ++ rest) : Reads c (.read left) (.data b) ⟨rest,c.written,c.read ++ b⟩
  | eintr {left : Nat} : Reads c (.read left) .eintr c

/-- A message and the buffer that the receiver reads it into. -/
abbrev Packet := Bytes × Bytes

def sending (p : Packet) : Job Int := writen (.buf p.1) (toInt p.1.length)

def receiving (p : Packet) : Job (Int × Bytes) := readn p.2 (toInt p.1.length)

structure Link where
  channel : Channel
  sender : Party signature Halt Packet Int
  receiver : Party signature Halt Packet (Int × Bytes)

def Link.start (packets : List Packet) : Link := ⟨⟨[],0,[]⟩,⟨packets,none,[]⟩,⟨packets,none,[]⟩⟩

inductive LinkStep (capacity : Nat) : Link → Link → Prop
  | send {c c' : Channel} {s s' : Party signature Halt Packet Int}
      {r : Party signature Halt Packet (Int × Bytes)}
      (step : PartyStep (Writes capacity) sending s c s' c') : LinkStep capacity ⟨c,s,r⟩ ⟨c',s',r⟩
  | receive {c c' : Channel} {s : Party signature Halt Packet Int}
      {r r' : Party signature Halt Packet (Int × Bytes)}
      (step : PartyStep Reads receiving r c r' c') : LinkStep capacity ⟨c,s,r⟩ ⟨c',s,r'⟩

def messages (packets : List Packet) : Bytes := (packets.map Prod.fst).flatten

theorem messages_snoc (l : List Packet) (p : Packet) : messages (l ++ [p]) = messages l ++ p.1 := by
  simp [messages]

theorem messages_middle (l l' : List Packet) (p : Packet) :
    messages (l ++ p :: l') = messages l ++ p.1 ++ messages l' := by
  simp [messages]

/-- What the sender sees of the channel: how much it has written. -/
inductive Counted (written : Nat) : (call : Call) → call.Res → Nat → Prop
  | count {b : Bytes} {left n : Nat} (positive : 0 < n) (fits : n ≤ left) :
      Counted written (.write (.buf b) left) (.count n) (written + n)
  | eintr {b : Bytes} {left : Nat} : Counted written (.write (.buf b) left) .eintr written

/-- What the receiver sees of it: the stream, piece by piece. -/
inductive Taken (stream taken : Bytes) : (call : Call) → call.Res → Bytes → Prop
  | data {b : Bytes} {left : Nat} (fits : b.length ≤ left) (next : taken ++ b <+: stream) :
      Taken stream taken (.read left) (.data b) (taken ++ b)
  | eintr {left : Nat} : Taken stream taken (.read left) .eintr taken

/-- A write is of the next bytes of the stream. -/
def Next (stream : Bytes) (written : Nat) (call : Call) : Prop :=
  ∃ b left, call = .write (.buf b) left ∧ b.take left <+: stream.drop written

/-- What was read and what is under way are what was written of the stream. -/
def Flows (stream : Bytes) (c : Channel) : Prop :=
  c.read ++ c.held = stream.take c.written ∧ c.written ≤ stream.length

section channel
variable {stream : Bytes} {capacity : Nat} {c c' : Channel} {call : Call} {r : call.Res}

theorem counted (answered : Writes capacity c call r c') : Counted c.written call r c'.written := by
  cases answered with
  | count positive fits => exact .count positive fits
  | eintr => exact .eintr

theorem taken (flows : Flows stream c) (answered : Reads c call r c') :
    Taken stream c.read call r c'.read := by
  cases answered with
  | @data b rest _ some fits held =>
    refine .data fits ⟨rest ++ stream.drop c.written,?_⟩
    rw [← List.append_assoc,List.append_assoc c.read,← held,flows.1,List.take_append_drop]
  | eintr => exact .eintr

theorem flows_written (flows : Flows stream c) (next : Next stream c.written call)
    (answered : Writes capacity c call r c') : Flows stream c' := by
  obtain ⟨b,left,rfl,ahead⟩ := next
  cases answered with
  | @count _ _ n positive fits inside room =>
    have piece : b.take n <+: stream.drop c.written := (List.take_prefix_take_left fits).trans ahead
    have size : (b.take n).length = n := List.length_take_of_le inside
    have bound := piece.length_le
    rw [size,List.length_drop] at bound
    have before := flows.2
    refine ⟨?_,by dsimp only; omega⟩
    rw [← List.append_assoc,flows.1,List.take_add,List.prefix_iff_eq_take.mp piece,size]
  | eintr => exact flows

theorem flows_read (flows : Flows stream c) (answered : Reads c call r c') : Flows stream c' := by
  cases answered with
  | data some fits held => exact ⟨by rw [List.append_assoc,← held,flows.1],flows.2⟩
  | eintr => exact flows

end channel

/-- `writen` writes its message where the stream has come to. -/
theorem wp_sending {stream : Bytes} {p : Packet} {rest : Bytes} {written : Nat}
    (short : p.1.length < 2 ^ 31) (ahead : stream.drop written = p.1 ++ rest) :
    Wp Counted (Next stream) (sending p)
      (fun out written' => out = .ok (p.1.length : Int) ∧ written' = written + p.1.length) written := by
  have size : toInt p.1.length = p.1.length := toInt_eq_self (by omega) (by omega)
  unfold sending
  rw [size]
  -- Between two writes the source has moved past what was written.
  refine ⟨fun s v => ∃ n, v = written + n ∧ n ≤ p.1.length ∧ s = ((p.1.length : Int) - n,Source.buf (p.1.drop n)),
    ⟨0,rfl,Nat.zero_le _,by simp⟩,?_⟩
  rintro _ _ ⟨n,rfl,inside,rfl⟩
  dsimp only
  split_ifs with more
  · refine ⟨⟨_,_,rfl,?_⟩,fun r v' answered => ?_⟩
    · rw [← List.drop_drop,ahead,List.drop_append_of_le_length inside]
      exact (List.take_prefix _ _).trans (List.prefix_append _ _)
    · cases answered with
      | @count _ _ k positive fits =>
        have nonzero : k ≠ 0 := by omega
        simp only [Prog.ret_bind,if_neg nonzero]
        refine ⟨n + k,by omega,by omega,Prod.ext (by push_cast; omega) ?_⟩
        simp only [Source.advance,List.drop_drop]
      | eintr => exact ⟨n,rfl,inside,rfl⟩
  · obtain rfl : n = p.1.length := by omega
    exact ⟨by simp,rfl⟩

/-- `readn` reads the message that comes next in the stream. -/
theorem wp_receiving {stream taken rest : Bytes} {p : Packet} (short : p.1.length < 2 ^ 31)
    (ahead : stream = taken ++ p.1 ++ rest) :
    Wp (Taken stream) (fun _ _ => True) (receiving p)
      (fun out taken' => out = .ok ((p.1.length : Int),p.1 ++ p.2.drop p.1.length) ∧
        taken' = taken ++ p.1) taken := by
  have size : toInt p.1.length = p.1.length := toInt_eq_self (by omega) (by omega)
  unfold receiving
  rw [size]
  -- Between two reads the buffer starts with the part of the message that arrived.
  refine ⟨fun s v => ∃ n, v = taken ++ p.1.take n ∧ n ≤ p.1.length ∧
    s = ((p.1.length : Int) - n,overlay p.2 0 (p.1.take n)),⟨0,by simp,Nat.zero_le _,by simp⟩,?_⟩
  rintro _ _ ⟨n,rfl,inside,rfl⟩
  dsimp only
  have arrived : (p.1.take n).length = n := List.length_take_of_le inside
  split_ifs with more
  · refine ⟨trivial,fun r v' answered => ?_⟩
    cases answered with
    | @data b _ fits next =>
      have piece : p.1.take n ++ b = p.1.take (n + b.length) := by
        rw [ahead,List.append_assoc taken,List.append_assoc taken,List.prefix_append_right_inj] at next
        rw [List.prefix_iff_eq_take.mp next,List.take_append_of_le_length,List.length_append,arrived]
        rw [List.length_append,arrived]
        omega
      refine ⟨n + b.length,by rw [List.append_assoc,piece],by omega,Prod.ext (by push_cast; omega) ?_⟩
      have place : ((p.1.length : Int) - (p.1.length - n)).toNat = (p.1.take n).length := by omega
      rw [place,overlay_overlay,piece]
    | eintr => exact ⟨n,rfl,inside,rfl⟩
  · obtain rfl : n = p.1.length := by omega
    rw [List.take_length]
    exact ⟨by simp [overlay],rfl⟩

/-- The stream up to what was written, and both endpoints on their way through it. -/
def Framed (packets : List Packet) (s : Link) : Prop :=
  Flows (messages packets) s.channel ∧
    Progress Counted (Next (messages packets)) (fun p => (p.1.length : Int))
      (fun done written => written = (messages done).length) packets s.sender s.channel.written ∧
    Progress (Taken (messages packets)) (fun _ _ => True)
      (fun p => ((p.1.length : Int),p.1 ++ p.2.drop p.1.length))
      (fun done taken => taken = messages done) packets s.receiver s.channel.read

theorem framed_start (packets : List Packet) : Framed packets (.start packets) :=
  ⟨⟨rfl,Nat.zero_le _⟩,progress_start rfl,progress_start rfl⟩

theorem framed_step {packets : List Packet} {capacity : Nat} {s s' : Link}
    (short : ∀ p ∈ packets, p.1.length < 2 ^ 31) (framed : Framed packets s)
    (stepped : LinkStep capacity s s') : Framed packets s' := by
  obtain ⟨flows,sender,receiver⟩ := framed
  cases stepped with
  | send step =>
    have kept := party_same Channel.read (fun _ _ answered => by cases answered <;> rfl) step
    refine ⟨?_,?_,by dsimp only; rwa [kept]⟩
    · exact progress_keeps (fun _ _ => flows_written flows) flows (fun _ _ => counted) sender step
    · refine progress_step ?_ (fun _ _ => counted) sender step
      rintro done p todo _ rfl rfl
      have ahead : (messages (done ++ p :: todo)).drop (messages done).length = p.1 ++ messages todo := by
        rw [messages_middle,List.append_assoc,List.drop_left]
      refine wp_mono ?_ (wp_sending (short p (by simp)) ahead)
      rintro _ _ ⟨rfl,rfl⟩
      exact ⟨rfl,by rw [messages_snoc,List.length_append]⟩
  | receive step =>
    have kept := party_same Channel.written (fun _ _ answered => by cases answered <;> rfl) step
    refine ⟨?_,by dsimp only; rwa [kept],?_⟩
    · exact progress_keeps (fun _ _ _ => flows_read flows) flows (fun _ _ => taken flows) receiver step
    · refine progress_step ?_ (fun _ _ => taken flows) receiver step
      rintro done p todo _ rfl rfl
      refine wp_mono ?_ (wp_receiving (short p (by simp)) (messages_middle done todo p))
      rintro _ _ ⟨rfl,rfl⟩
      exact ⟨rfl,(messages_snoc done p).symm⟩

/-- What was read, what is under way and what is not yet written are the messages, and each
finished `readn` returned its own. -/
theorem link_framed {packets : List Packet} {capacity : Nat} {s : Link}
    (short : ∀ p ∈ packets, p.1.length < 2 ^ 31)
    (reached : Relation.ReflTransGen (LinkStep capacity) (.start packets) s) :
    s.channel.read ++ s.channel.held ++ (messages packets).drop s.channel.written = messages packets ∧
      s.receiver.returned = (packets.take s.receiver.returned.length).map
        fun p => ((p.1.length : Int),p.1 ++ p.2.drop p.1.length) := by
  have framed : Framed packets s := by
    induction reached with
    | refl => exact framed_start packets
    | tail _ stepped ih => exact framed_step short ih stepped
  obtain ⟨flows,-,receiver⟩ := framed
  exact ⟨by rw [flows.1,List.take_append_drop],progress_returned receiver⟩

/-- A byte has crossed a channel that holds one; an empty message is to follow. -/
def samplePackets : List Packet := [([7],[0,9]),([],[])]

def sampleLink : Link :=
  ⟨⟨[],1,[7]⟩,⟨[([],[])],none,[1]⟩,⟨[([],[])],none,[(1,[7,9])]⟩⟩

theorem sampleLink_reached :
    Relation.ReflTransGen (LinkStep 1) (.start samplePackets) sampleLink := by
  have sent : Relation.ReflTransGen (LinkStep 1) (.start samplePackets)
      ⟨⟨[7],1,[]⟩,⟨[([],[])],none,[1]⟩,⟨samplePackets,none,[]⟩⟩ :=
    .head (.send .begin) <| .head (.send (.advance .loop)) <|
    .head (.send (.advance (.call (r := WriteResult.eintr) .eintr))) <|
    .head (.send (.advance .loop)) <|
    .head (.send (.advance (.call (r := WriteResult.count 1)
      (.count (by decide) (by decide) (by decide) (by decide))))) <|
    .head (.send (.advance .loop)) <| .single (.send .finish)
  exact sent.trans <| .head (.receive .begin) <| .head (.receive (.advance .loop)) <|
    .head (.receive (.advance (.call (r := ReadResult.data [7]) (.data (by decide) (by decide) rfl)))) <|
    .head (.receive (.advance .loop)) <| .single (.receive .finish)

theorem sampleLink_framed :
    [7] ++ [] ++ (messages samplePackets).drop 1 = messages samplePackets ∧
      [((1 : Int),[7] ++ [9])] = (samplePackets.take 1).map
        fun p => ((p.1.length : Int),p.1 ++ p.2.drop p.1.length) :=
  link_framed (by decide) sampleLink_reached

end FilediskServer.Framing
