import FilediskServer.Library.Extension
import FilediskServer.Library.Lines
import FilediskServer.ExactReads

/-! `readLine`: it peeks at the bytes that have come, looks for a newline among them and then reads
them once more, over the same memory. -/
namespace FilediskServer.ReadLine
open Interaction Bytes Calls SocketIO UploadProtocol ExactReads Lines

def newline : UInt8 := 10

/-- `recv(_fd, pstr, left, MSG_PEEK)`. -/
structure Recv where
  left : Nat

abbrev recvSignature : Signature := ⟨Recv,fun _ => ReadResult⟩

abbrev lineSignature : Signature := signature.plus recvSignature

abbrev LineJob := Prog lineSignature Halt

/-- A peek is answered like a read, but it takes nothing off the stream. -/
def Peeks (fails : Conn → Prop) : Handler recvSignature World := fun w o r w' => w' = w ∧
  match r with
  | .data b => b ≠ [] ∧ b.length ≤ o.left ∧ b <+: w.conn.input
  | .eof => w.conn.input = [] ∧ w.conn.ended = true
  | .eintr => True
  | .failed => fails w.conn

abbrev Socket (env : Env) (me : Nat) (fails : Conn → Prop) : Handler lineSignature World :=
  Beside (Sys env me) (Peeks fails)

/-- The variables of `readLine`; `pstr` as an offset into the buffer. -/
structure Cursor where
  left : Int
  pstr : Nat
  total : Int
  buf : Bytes

def recv (left : Int) : LineJob ReadResult := .call (.inr ⟨left.toNat⟩) .ret

/-- `readn(pstr, sz)`, whose result is dropped. -/
def readnAt (buf : Bytes) (pstr : Nat) (sz : Int) : LineJob Bytes := do
  let (_,read) ← (readn (buf.drop pstr) sz).lift
  pure (buf.take pstr ++ read)

/-- The branch of the loop for bytes that were peeked at. -/
def scan (s : Cursor) (b : Bytes) : LineJob (Cursor ⊕ ((Int × Bytes) ⊕ Cursor)) := do
  let buf := overlay s.buf s.pstr b
  match (slice buf s.pstr b.length).findIdx? (· == newline) with
  | some idx =>
    let sz : Nat := idx + 1
    let buf ← readnAt buf s.pstr sz
    pure (.inr (.inl (s.total + sz,overlay buf (s.pstr + sz) [0])))
  | none =>
    let buf ← readnAt buf s.pstr b.length
    pure (.inl ⟨s.left - b.length,s.pstr + b.length,s.total + b.length,buf⟩)

def round (s : Cursor) : LineJob (Cursor ⊕ ((Int × Bytes) ⊕ Cursor)) := do
  if s.left > 0 then
    match ← recv s.left with
    | .eintr => pure (.inl s)
    | .failed => pure (.inr (.inl (-1,s.buf)))
    | .eof => pure (.inr (.inr s))
    | .data b => scan s b
  else pure (.inr (.inr s))

def readLine (buf : Bytes) (len : Int) : LineJob (Int × Bytes) := do
  match ← Prog.iter round ⟨len - 1,0,0,buf⟩ with
  | .inl returned => pure returned
  | .inr s => pure (s.total - s.left,overlay s.buf s.pstr [0])

/-! What the schedule of answers says. -/

def RecvFailed : Event lineSignature → Prop
  | ⟨.inr _,ReadResult.failed⟩ => True
  | _ => False

def RecvEnded : Event lineSignature → Prop
  | ⟨.inr _,ReadResult.eof⟩ => True
  | _ => False

def peekedBy : Event lineSignature → Bytes
  | ⟨.inr _,ReadResult.data b⟩ => b
  | _ => []

def peeked (schedule : List (Event lineSignature)) : Bytes := schedule.flatMap peekedBy

def Going (schedule : List (Event lineSignature)) : Prop := ∀ e ∈ schedule, ¬ RecvFailed e ∧ ¬ RecvEnded e

theorem going_snoc {schedule : List (Event lineSignature)} {e : Event lineSignature} (going : Going schedule)
    (on : ¬ RecvFailed e ∧ ¬ RecvEnded e) : Going (schedule ++ [e]) :=
  List.forall_mem_append.mpr ⟨going,List.forall_mem_singleton.mpr on⟩

theorem peeked_snoc (schedule : List (Event lineSignature)) (e : Event lineSignature) :
    peeked (schedule ++ [e]) = peeked schedule ++ peekedBy e := by
  simp [peeked]

def listed (schedule : List (Event lineSignature)) (e : Event signature) : List (Event lineSignature) :=
  schedule ++ [⟨.inl e.1,e.2⟩]

theorem peeked_listed (schedule : List (Event lineSignature)) (e : Event signature) :
    peeked (listed schedule e) = peeked schedule :=
  (peeked_snoc ..).trans (List.append_nil _)

theorem going_listed {schedule : List (Event lineSignature)} {e : Event signature} (going : Going schedule) :
    Going (listed schedule e) :=
  going_snoc going ⟨id,id⟩

/-- The line and its end in a buffer of which `len` bytes may be written. -/
structure Stored (buf : Bytes) (len : Int) (line buf' : Bytes) : Prop where
  held : buf'.take (line.length + 1) = line ++ [0]
  beyond : buf'.drop len.toNat = buf.drop len.toNat
  size : buf'.length = buf.length

/-- The four ways out of `readLine`. Reading the peeked bytes back may fail, if `reads` does not hold. -/
inductive Finished (buf : Bytes) (len : Int) (w : World) (reads : Prop) :
    List (Event lineSignature) → Except Halt (Int × Bytes) → World → Prop
  | failed {schedule : List (Event lineSignature)} {n : Recv} {held : Bytes} {v : World}
      (going : Going schedule) :
      Finished buf len w reads (schedule ++ [⟨.inr n,ReadResult.failed⟩]) (.ok (-1,held)) v
  | found {schedule : List (Event lineSignature)} {front tail rest buf' : Bytes} (going : Going schedule)
      (peeks : peeked schedule = front ++ newline :: tail) (plain : newline ∉ front)
      (fits : (front.length : Int) + 1 < len) (stored : Stored buf len (front ++ [newline]) buf')
      (taken : reads → w.conn.input = front ++ newline :: rest) :
      Finished buf len w reads schedule (.ok ((front.length : Int) + 1,buf')) (World.unread w rest)
  | full {schedule : List (Event lineSignature)} {line rest buf' : Bytes} (going : Going schedule)
      (peeks : peeked schedule = line) (plain : newline ∉ line) (size : (line.length : Int) = len - 1)
      (stored : Stored buf len line buf') (taken : reads → w.conn.input = line ++ rest) :
      Finished buf len w reads schedule (.ok (line.length,buf')) (World.unread w rest)
  | ended {schedule : List (Event lineSignature)} {n : Recv} {line buf' : Bytes} (going : Going schedule)
      (peeks : peeked schedule = line) (plain : newline ∉ line) (less : (line.length : Int) < len - 1)
      (stored : Stored buf len line buf') (taken : reads → w.conn.input = line) :
      Finished buf len w reads (schedule ++ [⟨.inr n,ReadResult.eof⟩])
        (.ok ((line.length : Int) - (len - 1 - line.length),buf')) (World.unread w [])

/-- Between two rounds the bytes peeked at so far start the buffer, and none is a newline. -/
structure At (buf : Bytes) (len : Int) (w : World) (reads : Prop) (s : Cursor)
    (x : List (Event lineSignature) × World) : Prop where
  going : Going x.1
  plain : newline ∉ peeked x.1
  room : ((peeked x.1).length : Int) < len
  left : s.left = len - 1 - (peeked x.1).length
  pstr : s.pstr = (peeked x.1).length
  total : s.total = (peeked x.1).length
  held : s.buf.take (peeked x.1).length = peeked x.1
  beyond : s.buf.drop len.toNat = buf.drop len.toNat
  size : s.buf.length = buf.length
  stream : ∃ rest, x.2 = World.unread w rest ∧ (reads → w.conn.input = peeked x.1 ++ rest)

section rounds
variable {env : Env} {me : Nat} {fails : Conn → Prop} {buf : Bytes} {len : Int} {w : World}
  {schedule : List (Event lineSignature)}

/-- Reading back bytes that are in memory already changes nothing there. -/
theorem wp_reread {held b : Bytes} {v : World} (memory : b <+: held) (begins : b <+: v.conn.input) :
    Wp (Sys env me) (fun _ _ => True) (readn held b.length)
      (fun out v' => ∃ ret got rest, out = .ok (ret,held) ∧ v' = World.unread v rest ∧
        v.conn.input = got ++ rest ∧ ((∀ c, ¬ env.readFails c) → got = b)) v := by
  apply wp_readn _ _ fun _ _ => trivial
  intro ret got c received
  rw [Int.toNat_natCast] at received
  have part : got <+: b :=
    List.prefix_of_prefix_length_le ⟨c.input,received.taken.symm⟩ begins received.bound
  have unread : {v with conn := c} = World.unread v c.input := by
    obtain ⟨input,ended,output⟩ := c
    obtain rfl : ended = v.conn.ended := received.ended
    obtain rfl : output = v.conn.output := received.output
    rfl
  refine ⟨ret,got,c.input,by rw [overlay_same (part.trans memory)],unread,received.taken,fun succeed => ?_⟩
  rw [(received.start succeed).1]
  exact (List.prefix_iff_eq_take.mp begins).symm

theorem wp_readnAt {held b : Bytes} {pstr : Nat} {v : World}
    {post : Except Halt Bytes → List (Event lineSignature) × World → Prop} (going : Going schedule)
    (memory : b <+: held.drop pstr) (begins : b <+: v.conn.input)
    (after : ∀ schedule' got rest, peeked schedule' = peeked schedule → Going schedule' →
      v.conn.input = got ++ rest → ((∀ c, ¬ env.readFails c) → got = b) →
      post (.ok held) (schedule',World.unread v rest)) :
    Wp (Traced (Socket env me fails)) (fun _ _ => True) (readnAt held pstr b.length) post (schedule,v) := by
  have noted := @wp_tracked _ _ _ _ _ (Sys env me) listed _
    (fun trace => peeked trace = peeked schedule ∧ Going trace) _ _ _ _
    ⟨rfl,going⟩ (fun _ _ _ _ kept _ => ⟨(peeked_listed ..).trans kept.1,going_listed kept.2⟩)
    (wp_reread memory begins)
  have socket : Extends (Traced (Socket env me fails)) (Tracked listed (Sys env me)) := fun _ _ _ _ => Iff.rfl
  apply wp_bind
  refine wp_mono ?_ (wp_allow (fun _ _ _ => trivial) (wp_lift socket noted))
  rintro _ ⟨schedule',_⟩ ⟨⟨ret,got,rest,rfl,rfl,taken,whole⟩,same,going'⟩
  have kept := after schedule' got rest same going' taken whole
  have memory : held.take pstr ++ held.drop pstr = held := List.take_append_drop pstr held
  dsimp only [After]
  rw [← memory] at kept
  exact kept

theorem take_start {held a c : Bytes} (start : held.take (a ++ c).length = a ++ c) : held.take a.length = a := by
  have part := congrArg (List.take a.length) start
  rwa [List.take_take,min_eq_left (by simp),List.take_left] at part

theorem stored_of {line held : Bytes} (enough : len ≤ buf.length) (less : (line.length : Int) < len)
    (start : held.take line.length = line) (beyond : held.drop len.toNat = buf.drop len.toNat)
    (size : held.length = buf.length) : Stored buf len line (overlay held line.length [0]) := by
  have inside : line.length + [(0 : UInt8)].length ≤ held.length := by
    rw [List.length_singleton]
    omega
  refine ⟨?_,?_,(length_overlay inside).trans size⟩
  · have written := take_overlay inside
    rwa [start] at written
  · rw [drop_overlay inside (by rw [List.length_singleton]; omega),beyond]

structure Loaded (buf : Bytes) (len : Int) (line held : Bytes) (pstr : Nat) (b : Bytes) : Prop where
  start : held.take (line ++ b).length = line ++ b
  beyond : held.drop len.toNat = buf.drop len.toNat
  size : held.length = buf.length
  there : b <+: held.drop pstr

theorem loaded {reads : Prop} {s : Cursor} {v : World} {b : Bytes} (enough : len ≤ buf.length)
    (here : At buf len w reads s (schedule,v)) (fits : (b.length : Int) ≤ s.left) :
    Loaded buf len (peeked schedule) (overlay s.buf s.pstr b) s.pstr b := by
  have left := here.left
  have place := here.pstr
  have size := here.size
  dsimp only at left place
  have inside : s.pstr + b.length ≤ s.buf.length := by omega
  have start : (overlay s.buf s.pstr b).take (peeked schedule ++ b).length = peeked schedule ++ b := by
    rw [List.length_append,← place,take_overlay inside,place,here.held]
  refine ⟨start,?_,(length_overlay inside).trans size,?_⟩
  · rw [drop_overlay inside (by omega),here.beyond]
  · have behind := congrArg (List.drop s.pstr) start
    rw [place,List.drop_left,← place] at behind
    have part := (List.take_prefix (peeked schedule ++ b).length (overlay s.buf s.pstr b)).drop s.pstr
    rwa [behind] at part

/-- What is in memory once a newline has been found: the line up to it, with a NUL behind it. -/
theorem stored_line {reads : Prop} {s : Cursor} {v : World} {front tail : Bytes} (enough : len ≤ buf.length)
    (here : At buf len w reads s (schedule,v)) (fits : ((front ++ newline :: tail).length : Int) ≤ s.left) :
    ((peeked schedule ++ front).length : Int) + 1 < len ∧
    Stored buf len (peeked schedule ++ front ++ [newline])
      (overlay (overlay s.buf s.pstr (front ++ newline :: tail))
        (peeked schedule ++ front ++ [newline]).length [0]) := by
  have left := here.left
  have memory := loaded enough here fits
  have line : peeked schedule ++ (front ++ newline :: tail) =
      (peeked schedule ++ front ++ [newline]) ++ tail := by simp
  have short : ((peeked schedule ++ front).length : Int) + 1 < len := by
    simp only [List.length_append,List.length_cons] at fits left ⊢
    omega
  refine ⟨short,stored_of enough ?_ ?_ memory.beyond memory.size⟩
  · rw [List.length_append,List.length_singleton]
    exact short
  · have start := memory.start
    rw [line] at start
    exact take_start start

def RoundEnds (buf : Bytes) (len : Int) (w : World) (reads : Prop) :
    Except Halt (Cursor ⊕ ((Int × Bytes) ⊕ Cursor)) → List (Event lineSignature) × World → Prop
  | .ok (.inl next), x => At buf len w reads next x
  | .ok (.inr (.inl returned)), x => Finished buf len w reads x.1 (.ok returned) x.2
  | .ok (.inr (.inr s)), x =>
    Finished buf len w reads x.1 (.ok (s.total - s.left,overlay s.buf s.pstr [0])) x.2
  | .error _, _ => False

theorem wp_scan {s : Cursor} {b rest : Bytes} {n : Recv} (enough : len ≤ buf.length)
    (here : At buf len w (∀ c, ¬ env.readFails c) s (schedule,World.unread w rest))
    (fits : (b.length : Int) ≤ s.left) (begins : b <+: rest)
    (stream : (∀ c, ¬ env.readFails c) → w.conn.input = peeked schedule ++ rest) :
    Wp (Traced (Socket env me fails)) (fun _ _ => True) (scan s b)
      (RoundEnds buf len w (∀ c, ¬ env.readFails c))
      (schedule ++ [⟨.inr n,ReadResult.data b⟩],World.unread w rest) := by
  have left := here.left
  have place := here.pstr
  have total := here.total
  have memory := loaded enough here fits
  dsimp only at left place total
  have going : Going (schedule ++ [⟨.inr n,ReadResult.data b⟩]) := going_snoc here.going ⟨id,id⟩
  have grown : peeked (schedule ++ [⟨.inr n,ReadResult.data b⟩]) = peeked schedule ++ b := peeked_snoc ..
  have looked : slice (overlay s.buf s.pstr b) s.pstr b.length = b :=
    (List.prefix_iff_eq_take.mp memory.there).symm
  unfold scan
  dsimp only
  rw [looked]
  cases found : b.findIdx? (· == newline) with
  | none =>
    refine wp_bind (wp_readnAt going memory.there begins ?_)
    intro schedule' got last same going' taken whole
    rw [grown] at same
    have size : ((peeked schedule ++ b).length : Int) = (peeked schedule).length + b.length := by simp
    refine ⟨going',?_,?_,?_,?_,?_,?_,memory.beyond,memory.size,last,rfl,fun succeed => ?_⟩
    all_goals dsimp only
    all_goals rw [same]
    · intro inside
      exact (List.mem_append.mp inside).elim here.plain (none_found found)
    · omega
    · omega
    · omega
    · omega
    · exact memory.start
    · have stream := stream succeed
      obtain rfl : rest = got ++ last := taken
      rw [stream,whole succeed,List.append_assoc]
  | some idx =>
    obtain ⟨front,tail,rfl,rfl,plain⟩ := first_found found
    have piece : front ++ [newline] <+: front ++ newline :: tail := ⟨tail,by simp⟩
    have size : front.length + 1 = (front ++ [newline]).length := by simp
    have line : peeked schedule ++ (front ++ newline :: tail) =
        (peeked schedule ++ front) ++ newline :: tail := (List.append_assoc ..).symm
    have fresh : newline ∉ peeked schedule ++ front := fun inside =>
      (List.mem_append.mp inside).elim here.plain plain
    obtain ⟨short,written⟩ := stored_line enough here fits
    dsimp only
    rw [size]
    refine wp_bind (wp_readnAt going (piece.trans memory.there) (piece.trans begins) ?_)
    intro schedule' got last same going' taken whole
    rw [grown,line] at same
    have finished := @Finished.found buf len w (∀ c, ¬ env.readFails c) schedule' _ tail last _ going' same
      fresh short written fun succeed => by
        have stream := stream succeed
        obtain rfl : rest = got ++ last := taken
        rw [stream,whole succeed]
        simp
    have count : s.total + ((front ++ [newline]).length : Nat) =
        ((peeked schedule ++ front).length : Int) + 1 := by
      simp only [List.length_append,List.length_singleton]
      push_cast
      omega
    have position : s.pstr + (front ++ [newline]).length = (peeked schedule ++ front ++ [newline]).length := by
      rw [place]
      simp
    dsimp only [After,RoundEnds]
    rw [count,position]
    exact finished

theorem wp_round {s : Cursor} {x : List (Event lineSignature) × World} (enough : len ≤ buf.length)
    (here : At buf len w (∀ c, ¬ env.readFails c) s x) :
    Wp (Traced (Socket env me fails)) (fun _ _ => True) (round s)
      (RoundEnds buf len w (∀ c, ¬ env.readFails c)) x := by
  obtain ⟨schedule,v⟩ := x
  obtain ⟨rest,unread,stream⟩ := here.stream
  have left := here.left
  have place := here.pstr
  have total := here.total
  have room := here.room
  dsimp only at unread stream left place total room
  subst unread
  have stored : Stored buf len (peeked schedule) (overlay s.buf s.pstr [0]) := by
    rw [place]
    exact stored_of enough room here.held here.beyond here.size
  unfold round
  split_ifs with more
  · refine ⟨trivial,fun r x answered => ?_⟩
    obtain ⟨trace,v⟩ := x
    obtain ⟨noted,rfl,answer⟩ := answered
    dsimp only at noted answer
    subst noted
    match r with
    | .eintr =>
      have same : peeked (schedule ++ [⟨.inr ⟨s.left.toNat⟩,ReadResult.eintr⟩]) = peeked schedule := by
        rw [peeked_snoc]
        exact List.append_nil _
      refine ⟨going_snoc here.going ⟨id,id⟩,?_,?_,?_,?_,?_,?_,here.beyond,here.size,rest,rfl,?_⟩
      all_goals rw [same]
      · exact here.plain
      · exact room
      · exact left
      · exact place
      · exact total
      · exact here.held
      · exact stream
    | .failed => exact .failed here.going
    | .eof =>
      obtain ⟨none,-⟩ := answer
      obtain rfl : rest = [] := none
      have ended := @Finished.ended buf len w (∀ c, ¬ env.readFails c) schedule ⟨s.left.toNat⟩ _ _ here.going
        rfl here.plain (by omega) stored (by simpa using stream)
      rw [← left,← total] at ended
      exact ended
    | .data b =>
      obtain ⟨-,fits,begins⟩ := answer
      exact wp_scan enough here (by omega) begins stream
  · have full : ((peeked schedule).length : Int) = len - 1 := by omega
    have finished := @Finished.full buf len w (∀ c, ¬ env.readFails c) schedule _ rest _ here.going rfl
      here.plain full stored stream
    have same : s.total - s.left = (peeked schedule).length := by omega
    rw [← same] at finished
    exact finished

theorem wp_readLine (enough : len ≤ buf.length) (positive : 1 ≤ len) :
    Wp (Traced (Socket env me fails)) (fun _ _ => True) (readLine buf len)
      (fun out x => Finished buf len w (∀ c, ¬ env.readFails c) x.1 out x.2) ([],w) := by
  refine ⟨At buf len w (∀ c, ¬ env.readFails c),?_,fun s x here => ?_⟩
  · refine ⟨nofun,by simp [peeked],?_,?_,rfl,rfl,rfl,rfl,rfl,w.conn.input,rfl,fun _ => rfl⟩
    · simp only [peeked,List.flatMap_nil,List.length_nil]
      omega
    · simp [peeked]
  · refine wp_mono ?_ (wp_round enough here)
    intro out x' ends
    match out with
    | .ok (.inl next) => exact ends
    | .ok (.inr (.inl returned)) => exact ends
    | .ok (.inr (.inr s)) => exact ends
    | .error e => exact ends.elim

end rounds

/-! `readLine` comes to an end. -/

def Signal : Event lineSignature → Prop
  | ⟨.inl o,r⟩ => Interrupted ⟨o,r⟩
  | ⟨.inr _,ReadResult.eintr⟩ => True
  | ⟨.inr _,_⟩ => False

/-- Between two rounds the bytes that have been taken hold no newline. -/
def Ready (size : Nat) (len : Int) (w : World) (s : Cursor) (v : World) : Prop :=
  ∃ got rest, v = World.unread w rest ∧ w.conn.input = got ++ rest ∧ newline ∉ got ∧
    s.left = len - 1 - got.length ∧ s.pstr = got.length ∧ s.buf.length = size

/-- The loop goes on after this round, with less to do. -/
def Lower (size : Nat) (len : Int) (w : World) (s : Cursor) (n : Nat) :
    Except Halt (Cursor ⊕ ((Int × Bytes) ⊕ Cursor)) → World × Nat → Prop
  | .ok (.inl next), x => Ready size len w next x.1 ∧ next.left.toNat + x.2 < s.left.toNat + n
  | _, _ => True

section progress
variable {env : Env} {me : Nat} {fails : Conn → Prop} {buf : Bytes} {len : Int} {w : World} {n : Nat}

theorem total_readnAt (reads : ∀ c, ¬ env.readFails c) {held b rest : Bytes} {pstr : Nat} {v : World}
    {post : Except Halt Bytes → World × Nat → Prop} (memory : b <+: held.drop pstr)
    (begins : v.conn.input = b ++ rest) (after : ∀ n' ≤ n, post (.ok held) (World.unread v rest,n')) :
    Total (Bounded Signal (Socket env me fails)) post (readnAt held pstr b.length) (v,n) := by
  have socket : Extends (Bounded Signal (Socket env me fails)) (Bounded Interrupted (Sys env me)) :=
    fun _ _ _ _ => Iff.rfl
  have enough : (b.length : Int) ≤ v.conn.input.length := by
    rw [begins,List.length_append]
    omega
  have stops := @total_readn env me v (held.drop pstr) b.length (.inl enough) n
  have ends := total_of_wp stops
    (wp_kept (K := fun x => x.2 ≤ n) (fun x o r x' less answered => ?_) le_rfl
      (wp_bounded (wp_reread memory ⟨rest,begins.symm⟩) n))
  · apply total_bind
    refine total_mono ?_ (total_lift socket ends)
    rintro _ ⟨_,n'⟩ ⟨⟨ret,got,last,rfl,rfl,taken,whole⟩,less⟩
    obtain rfl : got = b := whole reads
    rw [begins] at taken
    obtain rfl := List.append_cancel_left taken
    have kept := after n' less
    rw [← List.take_append_drop pstr held] at kept
    exact .ret kept
  · rcases answered.2 with ⟨-,spent⟩ | ⟨-,same⟩ <;> omega

theorem total_scan (reads : ∀ c, ¬ env.readFails c) {s : Cursor} {b rest : Bytes} (enough : len ≤ buf.length)
    (here : Ready buf.length len w s (World.unread w (b ++ rest))) (some : b ≠ []) (more : s.left > 0)
    (fits : b.length ≤ s.left.toNat) :
    Total (Bounded Signal (Socket env me fails)) (Lower buf.length len w s n) (scan s b)
      (World.unread w (b ++ rest),n) := by
  obtain ⟨got,_,unread,taken,plain,left,place,size⟩ := here
  obtain rfl : b ++ rest = _ := congrArg (fun v : World => v.conn.input) unread
  have gained := List.length_pos_iff.mpr some
  have inside : s.pstr + b.length ≤ s.buf.length := by omega
  have there : b <+: (overlay s.buf s.pstr b).drop s.pstr := by
    unfold overlay
    rw [List.append_assoc,List.drop_left' (by rw [List.length_take]; omega)]
    exact List.prefix_append ..
  have looked : slice (overlay s.buf s.pstr b) s.pstr b.length = b := (List.prefix_iff_eq_take.mp there).symm
  unfold scan
  dsimp only
  rw [looked]
  cases found : b.findIdx? (· == newline) with
  | none =>
    refine total_bind (total_readnAt reads there rfl fun n' less => .ret ⟨?_,?_⟩)
    · refine ⟨got ++ b,rest,rfl,by rw [taken,List.append_assoc],?_,?_,?_,(length_overlay inside).trans size⟩
      · intro member
        exact (List.mem_append.mp member).elim plain (none_found found)
      · dsimp only
        rw [List.length_append]
        push_cast
        omega
      · dsimp only
        rw [List.length_append]
        omega
    · dsimp only
      omega
  | some idx =>
    obtain ⟨front,tail,rfl,rfl,-⟩ := first_found found
    have begins : front ++ newline :: tail ++ rest = (front ++ [newline]) ++ (tail ++ rest) := by simp
    have line : front.length + 1 = (front ++ [newline]).length := by simp
    dsimp only
    rw [line]
    refine total_bind (total_readnAt reads (List.IsPrefix.trans ?_ there) begins fun _ _ => .ret trivial)
    exact ⟨tail,by simp⟩

theorem total_round (reads : ∀ c, ¬ env.readFails c) {s : Cursor} {v : World} (enough : len ≤ buf.length)
    (comes : w.conn.ended = true ∨ newline ∈ w.conn.input ∨ len - 1 ≤ w.conn.input.length)
    (here : Ready buf.length len w s v) :
    Total (Bounded Signal (Socket env me fails)) (Lower buf.length len w s n) (round s) (v,n) := by
  obtain ⟨got,rest,rfl,taken,plain,left,place,size⟩ := here
  unfold round
  split_ifs with more
  · apply total_call
    · by_cases none : rest = []
      · subst none
        rw [List.append_nil] at taken
        have ended : w.conn.ended = true := by
          rw [taken] at comes
          exact comes.resolve_right fun other => other.elim plain fun _ => by omega
        exact ⟨ReadResult.eof,(_,n),⟨rfl,rfl,ended⟩,.inr ⟨id,rfl⟩⟩
      · have some : rest.take s.left.toNat ≠ [] := by
          rw [ne_eq,List.take_eq_nil_iff]
          rintro (zero | empty)
          · omega
          · exact none empty
        exact ⟨ReadResult.data (rest.take s.left.toNat),(_,n),
          ⟨rfl,some,List.length_take_le ..,List.take_prefix ..⟩,.inr ⟨id,rfl⟩⟩
    · intro r x answered
      obtain ⟨v,m⟩ := x
      obtain ⟨rfl,answer⟩ := answered.1
      match r with
      | .eintr =>
        have less := bounded_spent answered trivial
        refine .ret ⟨⟨got,rest,rfl,taken,plain,left,place,size⟩,?_⟩
        dsimp only at less ⊢
        omega
      | .failed | .eof => exact .ret trivial
      | .data b =>
        obtain ⟨some,fits,last,rfl⟩ := answer
        have same := bounded_free answered id
        dsimp only at same
        rw [same]
        exact total_scan reads enough ⟨got,b ++ last,rfl,taken,plain,left,place,size⟩ some more fits
  · exact .ret trivial

theorem total_readLine (reads : ∀ c, ¬ env.readFails c) (enough : len ≤ buf.length)
    (comes : w.conn.ended = true ∨ newline ∈ w.conn.input ∨ len - 1 ≤ w.conn.input.length) :
    Total (Bounded Signal (Socket env me fails)) (fun _ _ => True) (readLine buf len) (w,n) := by
  apply total_bind
  apply @total_loop _ _ _ _ _ _ _ _ (fun s (x : World × Nat) => Ready buf.length len w s x.1)
    (fun s x => s.left.toNat + x.2)
  · exact ⟨[],w.conn.input,rfl,rfl,List.not_mem_nil,by simp,rfl,rfl⟩
  · rintro s ⟨v,k⟩ here
    apply total_mono _ (total_round reads enough comes here)
    intro out x lower
    match out with
    | .ok (.inl next) => exact lower
    | .ok (.inr (.inl returned)) => exact .ret (.ret trivial)
    | .ok (.inr (.inr s)) => exact .ret (.ret trivial)
    | .error e => trivial

end progress

end FilediskServer.ReadLine
