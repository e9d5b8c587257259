import FilediskServer.Library.Wp
import FilediskServer.Redis
import FilediskServer.Filetree
import FilediskServer.Disk

/-! The calls through which a file task reaches the world outside its own memory, and
every way the kernel, MySQL and Redis may answer them. -/
namespace FilediskServer.Calls
open Interaction Bytes CusInfo Redis Filetree Disk

structure Mapping where
  file : File
  length : Nat
  deriving DecidableEq

/-- Where a `write` takes its bytes from; a mapping is `none` when it is `MAP_FAILED`. -/
inductive Source
  | buf (b : Bytes)
  | mapped (m : Option Mapping) (offset : Nat)

def Source.advance : Source → Nat → Source
  | .buf b, n => .buf (b.drop n)
  | .mapped m offset, n => .mapped m (offset + n)

/-- The bytes that can be read from a source. A mapping is read when its bytes are sent,
up to the end of its last page and of the last page of the file. -/
def Source.bytes (files : Files) : Source → Bytes
  | .buf b => b
  | .mapped none _ => []
  | .mapped (some m) offset => ((files.pages m.file).take (Files.pageRound m.length)).drop offset

theorem Source.advance_zero (source : Source) : source.advance 0 = source := by
  cases source <;> simp [Source.advance]

theorem Source.advance_advance (source : Source) (m n : Nat) :
    (source.advance m).advance n = source.advance (m + n) := by
  cases source <;> simp [Source.advance,Nat.add_assoc]

theorem Source.bytes_advance (files : Files) (source : Source) (n : Nat) :
    (source.advance n).bytes files = (source.bytes files).drop n := by
  cases source with
  | buf b => rfl
  | mapped m offset =>
    cases m with
    | none => simp [Source.advance,Source.bytes]
    | some m => simp [Source.advance,Source.bytes,List.drop_drop]

inductive ReadResult
  | data (b : Bytes)
  | eof
  | eintr
  | failed

inductive WriteResult
  | count (n : Nat)
  | eintr
  | failed

inductive Call
  /-- `read(_fd, pstr, left)` on the task's connection -/
  | read (left : Nat)
  /-- `write(_fd, pstr, left)` on the task's connection -/
  | write (source : Source) (left : Nat)
  | redis (c : Command)
  /-- `mysql_query` and, for a select, `mysql_store_result` -/
  | query (s : Statement)
  /-- `open` with `O_RDWR|O_CREAT|O_APPEND` -/
  | openFile (path : Bytes)
  | writeFile (fd : Option File) (b : Bytes)
  | mmap (fd : File) (length : UInt64)
  | munmap (m : Option Mapping)
  | close (fd : Option File)
  /-- `new char[n]`, with what the memory held before -/
  | alloc (n : Nat)
  /-- an automatic array of `n` bytes, for which the thread's stack may have no room -/
  | array (n : Nat)
  /-- an automatic variable of `n` bytes that is not initialised -/
  | uninit (n : Nat)
  /-- the memory that follows an automatic buffer -/
  | beyond

abbrev Call.Res : Call → Type
  | .read _ => ReadResult
  | .write .. => WriteResult
  | .redis c => Except RedisError c.Reply
  | .query s => s.Result
  | .openFile _ => Option File
  | .writeFile .. => Unit
  | .mmap .. => Option Mapping
  | .munmap _ => Unit
  | .close _ => Unit
  | .alloc _ => Option Bytes
  | .array _ => Bool
  | .uninit _ => Bytes
  | .beyond => Bytes

abbrev signature : Signature := ⟨Call,Call.Res⟩

/-- How a call of `process` ends without returning. An exception is caught nowhere, so it
ends the server, as reading a null pointer of MySQL and running over the stack do. `undefined`
is an array that no bound is for, with which C++ leaves open how the call goes on. -/
inductive Halt
  | redis (e : RedisError)
  | numeral (e : NumeralError)
  | badAlloc
  | null
  | stackOverflow
  | undefined
  deriving DecidableEq

abbrev Job := Prog signature Halt

def ask (c : Call) : Job c.Res := .call c .ret

/-- One connection: what the client sent and nobody read yet, whether it has closed its
side, and what was written to it. -/
structure Conn where
  input : Bytes
  ended : Bool
  output : Bytes
  deriving DecidableEq

structure Store where
  redis : Redis.State
  table : List Row
  files : Files

structure World where
  conn : Conn
  store : Store

/-- What there is at best: the names that can be opened, the sizes of memory and of arrays on a
thread's stack that can be had, and how much one `write` to a file takes whole. -/
structure Kernel where
  opens : Bytes → Prop
  allocates : Nat → Prop
  arrays : Nat → Prop
  writes : Nat → Prop

def Kernel.ample : Kernel := ⟨fun _ => True,fun _ => True,fun _ => True,fun _ => True⟩

/-- What may go wrong, how Redis answers, and the server's working directory. -/
structure Env where
  redis : Semantics
  cwd : File
  kernel : Kernel
  readFails : Conn → Prop
  writeFails : Prop
  diskFails : Prop
  insertFails : Prop
  selectFails : Prop
  memoryFails : Prop

/-- Contents can be opened, and a `write` takes them whole. -/
structure Env.DiskWorks (env : Env) : Prop where
  up : ¬ env.diskFails
  opens : ∀ d, env.kernel.opens (hashPath d)
  writes : ∀ n, env.kernel.writes n

/-- The user half of a 64-bit address space. -/
def addressSpace : Nat := 2 ^ 47

/-- Every answer to a call that task `me` may get, and the world after it. A `read` with
nothing to read and no end of file is not answered. -/
def Sys (env : Env) (me : Nat) : Handler signature World := fun w c r w' =>
  match c, r with
  | .read left, .data b => b ≠ [] ∧ b.length ≤ left ∧
      ∃ rest, w.conn.input = b ++ rest ∧ w' = {w with conn := {w.conn with input := rest}}
  | .read _, .eof => w.conn.input = [] ∧ w.conn.ended = true ∧ w' = w
  | .read _, .eintr => w' = w
  | .read _, .failed => env.readFails w.conn ∧ w' = w
  | .write source left, .count n => 0 < n ∧ n ≤ left ∧ n ≤ (source.bytes w.store.files).length ∧
      w' = {w with conn := {w.conn with
        output := w.conn.output ++ (source.bytes w.store.files).take n}}
  | .write .., .eintr => w' = w
  | .write source left, .failed =>
      (env.writeFails ∨ (source.bytes w.store.files).length < left) ∧ w' = w
  | .redis c, r => ∃ redis, env.redis w.store.redis c r redis ∧
      w' = {w with store := {w.store with redis := redis}}
  | .query (.insert userid filepath index hashfilepath dirid filesize), done =>
      (done = true ∧ w' = {w with store := {w.store with
        table := w.store.table ++ [⟨userid,filepath,some index,hashfilepath,dirid,filesize⟩]}}) ∨
      (done = false ∧ env.insertFails ∧ w' = w)
  | .query (.selectFiles uid dirid filename), rows => w' = w ∧
      ((∃ l, rows = some l ∧ l.Perm ((selected w.store.table uid dirid filename).map Row.cells)) ∨
        (rows = none ∧ env.selectFails))
  | .query (.countPath filename), count => w' = w ∧
      (count = some (pathCount w.store.table filename) ∨ (count = none ∧ env.selectFails))
  | .openFile path, fd =>
      (fd = some (resolve env.cwd path) ∧ env.kernel.opens path ∧ w' = {w with store := {w.store with
        files := w.store.files.create (resolve env.cwd path)}}) ∨
      (fd = none ∧ (env.diskFails ∨ ¬ env.kernel.opens path) ∧ w' = w)
  | .writeFile none _, _ => w' = w
  | .writeFile (some f) b, _ =>
      (env.kernel.writes b.length ∧
        w' = {w with store := {w.store with files := w.store.files.append f ⟨me,b⟩}}) ∨
      ((env.diskFails ∨ ¬ env.kernel.writes b.length) ∧ (w' = w ∨
        ∃ n, w' = {w with store := {w.store with files := w.store.files.append f ⟨me,b.take n⟩}}))
  | .mmap f length, m => w' = w ∧
      ((m = some ⟨f,length.toNat⟩ ∧ 0 < length.toNat ∧ length.toNat < addressSpace) ∨
        (m = none ∧ (env.diskFails ∨ length.toNat = 0 ∨ addressSpace ≤ length.toNat)))
  | .munmap _, _ => w' = w
  | .close _, _ => w' = w
  | .alloc n, memory => w' = w ∧
      ((∃ b, memory = some b ∧ b.length = n ∧ env.kernel.allocates n) ∨
        (memory = none ∧ (env.memoryFails ∨ ¬ env.kernel.allocates n)))
  | .array n, fits => w' = w ∧
      ((fits = true ∧ env.kernel.arrays n) ∨ (fits = false ∧ (env.memoryFails ∨ ¬ env.kernel.arrays n)))
  | .uninit n, memory => w' = w ∧ memory.length = n
  | .beyond, _ => w' = w

/-- A server on which nothing goes wrong that the kernel can do. -/
def limited (k : Kernel) (cwd : File) : Env := ⟨typed,cwd,k,fun _ => False,False,False,False,False,False⟩

/-- A server on which nothing goes wrong. -/
abbrev calm (cwd : File) : Env := limited .ample cwd

theorem calm_disk (cwd : File) : (calm cwd).DiskWorks := ⟨not_false,fun _ => trivial,fun _ => trivial⟩

/-- What a server on which nothing goes wrong answers, another may answer too. -/
theorem sys_of_calm {env : Env} {me : Nat} {w w' : World} {c : Call} {r : c.Res}
    (allows : ∀ c r s', typed w.store.redis c r s' → env.redis w.store.redis c r s')
    (answered : Sys (limited env.kernel env.cwd) me w c r w') : Sys env me w c r w' := by
  cases c with
  | read left =>
    cases r with
    | data b => exact answered
    | eof => exact answered
    | eintr => exact answered
    | failed => exact answered.1.elim
  | write source left =>
    cases r with
    | count n => exact answered
    | eintr => exact answered
    | failed => exact ⟨answered.1.imp_left False.elim,answered.2⟩
  | redis c =>
    obtain ⟨s,executed,rfl⟩ := answered
    exact ⟨s,allows _ _ _ executed,rfl⟩
  | query s =>
    cases s with
    | insert => exact answered.imp_right fun lost => lost.2.1.elim
    | selectFiles | countPath => exact ⟨answered.1,answered.2.imp_right fun lost => lost.2.elim⟩
  | openFile path => exact answered.imp_right fun lost => ⟨lost.1,lost.2.1.imp_left False.elim,lost.2.2⟩
  | writeFile fd b =>
    cases fd with
    | none => exact answered
    | some f => exact answered.imp_right fun lost => ⟨lost.1.imp_left False.elim,lost.2⟩
  | mmap f length =>
    obtain ⟨same,fits | ⟨none,why⟩⟩ := answered
    · exact ⟨same,.inl fits⟩
    · exact ⟨same,.inr ⟨none,why.imp_left False.elim⟩⟩
  | alloc n | array n => exact ⟨answered.1,answered.2.imp_right fun lost => ⟨lost.1,lost.2.imp_left False.elim⟩⟩
  | uninit n | munmap m | close fd | beyond => exact answered

/-- What a call may change of the world. -/
inductive Change (w : World) : Call → World → Prop
  | nothing {c : Call} : Change w c w
  | read {left : Nat} (rest : Bytes) :
      Change w (.read left) {w with conn := {w.conn with input := rest}}
  | write {source : Source} {left : Nat} (output : Bytes) :
      Change w (.write source left) {w with conn := {w.conn with output := output}}
  | redis {command : Command} (redis : Redis.State) :
      Change w (.redis command) {w with store := {w.store with redis := redis}}
  | insert {userid : UInt64} {filepath : Bytes} {index : Int} {hashfilepath : Bytes}
      {dirid filesize : Int} (table : List Row) :
      Change w (.query (.insert userid filepath index hashfilepath dirid filesize))
        {w with store := {w.store with table := table}}
  | openFile {path : Bytes} (files : Files) :
      Change w (.openFile path) {w with store := {w.store with files := files}}
  | writeFile {fd : Option File} {b : Bytes} (files : Files) :
      Change w (.writeFile fd b) {w with store := {w.store with files := files}}

theorem sys_changes {env : Env} {me : Nat} {w w' : World} {c : Call} {r : c.Res}
    (answered : Sys env me w c r w') : Change w c w' := by
  cases c with
  | read left =>
    cases r with
    | data b => obtain ⟨_,_,_,_,rfl⟩ := answered; exact .read _
    | eof => obtain ⟨_,_,rfl⟩ := answered; exact .nothing
    | eintr => obtain rfl := answered; exact .nothing
    | failed => obtain ⟨_,rfl⟩ := answered; exact .nothing
  | write source left =>
    cases r with
    | count n => obtain ⟨_,_,_,rfl⟩ := answered; exact .write _
    | eintr => obtain rfl := answered; exact .nothing
    | failed => obtain ⟨_,rfl⟩ := answered; exact .nothing
  | redis command => obtain ⟨_,_,rfl⟩ := answered; exact .redis _
  | query s =>
    cases s with
    | insert =>
      obtain ⟨_,rfl⟩ | ⟨_,_,rfl⟩ := answered
      · exact .insert _
      · exact .nothing
    | selectFiles | countPath => obtain ⟨rfl,_⟩ := answered; exact .nothing
  | openFile path =>
    obtain ⟨_,_,rfl⟩ | ⟨_,_,rfl⟩ := answered
    · exact .openFile _
    · exact .nothing
  | writeFile fd b =>
    cases fd with
    | none => obtain rfl := answered; exact .nothing
    | some f =>
      obtain ⟨_,rfl⟩ | ⟨_,rfl | ⟨_,rfl⟩⟩ := answered
      · exact .writeFile _
      · exact .nothing
      · exact .writeFile _
  | mmap | alloc | array | uninit => obtain ⟨rfl,_⟩ := answered; exact .nothing
  | munmap | close | beyond => obtain rfl := answered; exact .nothing

/-- Only a command changes Redis. -/
theorem redis_kept {env : Env} {me : Nat} {w w' : World} {c : Call} {r : c.Res}
    (other : ∀ command, c ≠ .redis command) (answered : Sys env me w c r w') :
    w'.store.redis = w.store.redis := by
  cases sys_changes answered with
  | redis => exact absurd rfl (other _)
  | nothing | read | write | insert | openFile | writeFile => rfl

theorem calm_sound {k : Kernel} {cwd : File} {me : Nat} {w w' : World} {c : Call} {r : c.Res}
    (sound : w.store.redis.Sound) (answered : Sys (limited k cwd) me w c r w') : w'.store.redis.Sound := by
  by_cases asks : ∃ command, c = .redis command
  · obtain ⟨command,rfl⟩ := asks
    obtain ⟨s,executed,rfl⟩ := answered
    exact typed_sound sound executed
  · rw [redis_kept (fun command same => asks ⟨command,same⟩) answered]
    exact sound

theorem runs_of_calm {ε α : Type} {env : Env} {me : Nat} {p : Prog signature ε α} {w w' : World}
    {out : Except ε α} (allows : ∀ s c r s', State.Sound s → typed s c r s' → env.redis s c r s')
    (sound : w.store.redis.Sound) (run : Runs (Sys (limited env.kernel env.cwd) me) p w out w') :
    Runs (Sys env me) p w out w' ∧ w'.store.redis.Sound := by
  have alike (w v : World) (c : Call) (r : c.Res) (w' : World)
      (related : w = v ∧ w.store.redis.Sound) (_ : True) (answered : Sys (limited env.kernel env.cwd) me w c r w') :
      ∃ v', Sys env me v c r v' ∧ (w' = v' ∧ w'.store.redis.Sound) := by
    obtain ⟨rfl,sound⟩ := related
    exact ⟨w',sys_of_calm (fun c r s' => allows _ c r s' sound) answered,rfl,calm_sound sound answered⟩
  obtain ⟨_,same,rfl,kept⟩ := runs_transfer alike run (wp_true p) ⟨rfl,sound⟩
  exact ⟨same,kept⟩

/-- The answers of a quick, undisturbed server whose fresh memory is zero. -/
def respond (cwd : File) (me : Nat) : Responder signature World := fun w c =>
  match c with
  | .read left =>
    if left = 0 then none
    else if w.conn.input ≠ [] then
      some (.data (w.conn.input.take left),{w with conn := {w.conn with input := w.conn.input.drop left}})
    else if w.conn.ended then some (.eof,w) else none
  | .write source left =>
    let ready := (source.bytes w.store.files).take left
    if ready = [] then if left = 0 then none else some (.failed,w)
    else some (.count ready.length,{w with conn := {w.conn with output := w.conn.output ++ ready}})
  | .redis c =>
    let (r,keys) := exec w.store.redis.keys c
    some (r,{w with store := {w.store with redis := ⟨keys,record w.store.redis.added c⟩}})
  | .query (.insert userid filepath index hashfilepath dirid filesize) =>
    some (true,{w with store := {w.store with
      table := w.store.table ++ [⟨userid,filepath,some index,hashfilepath,dirid,filesize⟩]}})
  | .query (.selectFiles uid dirid filename) =>
    some (some ((selected w.store.table uid dirid filename).map Row.cells),w)
  | .query (.countPath filename) => some (some (pathCount w.store.table filename),w)
  | .openFile path =>
    some (some (resolve cwd path),{w with store := {w.store with
      files := w.store.files.create (resolve cwd path)}})
  | .writeFile none _ => some ((),w)
  | .writeFile (some f) b =>
    some ((),{w with store := {w.store with files := w.store.files.append f ⟨me,b⟩}})
  | .mmap f length =>
    if 0 < length.toNat ∧ length.toNat < addressSpace then some (some ⟨f,length.toNat⟩,w)
    else some (none,w)
  | .munmap _ => some ((),w)
  | .close _ => some ((),w)
  | .alloc n => some (some (zeros n),w)
  | .array _ => some (true,w)
  | .uninit n => some (zeros n,w)
  | .beyond => some ([],w)

theorem respond_within (cwd : File) (me : Nat) : (respond cwd me).Within (Sys (calm cwd) me) := by
  intro w c r w' answered
  cases c with
  | read left =>
    simp only [respond] at answered
    split_ifs at answered with none some closed
    · cases answered
      exact ⟨by simp [none,some],by simp,_,(List.take_append_drop _ _).symm,rfl⟩
    · cases answered
      exact ⟨by simpa using some,closed,rfl⟩
  | write source left =>
    simp only [respond] at answered
    split_ifs at answered with empty zero
    · cases answered
      refine ⟨.inr ?_,rfl⟩
      have gone : source.bytes w.store.files = [] := by simpa [zero] using empty
      simp [gone]
      omega
    · cases answered
      refine ⟨List.length_pos_iff.mpr empty,by simp,by simp,?_⟩
      simp [List.take_eq_take_iff]
  | redis c => cases answered; exact ⟨_,⟨rfl,rfl⟩,rfl⟩
  | query s =>
    cases s with
    | insert => cases answered; exact .inl ⟨rfl,rfl⟩
    | selectFiles => cases answered; exact ⟨rfl,.inl ⟨_,rfl,.refl _⟩⟩
    | countPath => cases answered; exact ⟨rfl,.inl rfl⟩
  | openFile path => cases answered; exact .inl ⟨rfl,trivial,rfl⟩
  | writeFile fd b =>
    cases fd with
    | none => cases answered; rfl
    | some f => cases answered; exact .inl ⟨trivial,rfl⟩
  | mmap f length =>
    simp only [respond] at answered
    split_ifs at answered with fits
    · cases answered; exact ⟨rfl,.inl ⟨rfl,fits⟩⟩
    · cases answered
      refine ⟨rfl,.inr ⟨rfl,.inr ?_⟩⟩
      omega
  | munmap m => cases answered; rfl
  | close fd => cases answered; rfl
  | alloc n => cases answered; exact ⟨rfl,.inl ⟨_,rfl,by simp,trivial⟩⟩
  | array n => cases answered; exact ⟨rfl,.inl ⟨rfl,trivial⟩⟩
  | uninit n => cases answered; exact ⟨rfl,by simp⟩
  | beyond => cases answered; rfl

theorem runs_of_respond {ε α : Type} {env : Env} {me fuel : Nat} {p : Prog signature ε α} {w w' : World}
    {out : Except ε α} (ample : env.kernel = .ample)
    (allows : ∀ s c r s', State.Sound s → typed s c r s' → env.redis s c r s')
    (sound : w.store.redis.Sound) (ran : (respond env.cwd me).run fuel p w = some (out,w')) :
    Runs (Sys env me) p w out w' ∧ w'.store.redis.Sound := by
  have run := Responder.run_sound (respond_within env.cwd me) fuel p w w' out ran
  exact runs_of_calm allows sound (ample ▸ run)

end FilediskServer.Calls
