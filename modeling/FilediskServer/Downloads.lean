import FilediskServer.UploadHistory
import Mathlib.Data.List.Perm.Basic

/-! Download requests: what `downloadfile` sends for the rows it selects, and when that is
what was uploaded. The file it opens is the one whose name the client gave. -/
namespace FilediskServer.Downloads
open Interaction Bytes CusInfo Redis Filetree Disk Calls SocketIO FileTask FileTaskRuns UploadHistory

structure Download extends Request where
  wanted : (Fileheader.read header).upload = false
  named : 0 ≤ namelenOf record ∧ namelenOf record + 1 < 2 ^ 31

theorem filename_read {q : Request} (low : 0 ≤ namelenOf q.record) :
    cstr (overlay (zeros (namelenOf q.record + 1).toNat) 0 q.name) = q.filename := by
  have size : (namelenOf q.record + 1).toNat = (namelenOf q.record).toNat + 1 := by omega
  rw [size]
  exact cstr_filled q.nameSize

structure SessionOf (k : Keyspace) (uuid : Bytes) (userid : UInt64) : Prop where
  live : ∃ fields expires, k uuid = some ⟨.hash fields,expires⟩ ∧ fields ≠ [] ∧
    stoull (lookup fields (ascii "userid")) = .ok userid

theorem session_typed {k : Keyspace} {added : List (Bytes × Bytes)} {uuid : Bytes} {userid : UInt64}
    (session : SessionOf k uuid userid) : ∃ fields, fields ≠ [] ∧
      stoull (lookup fields (ascii "userid")) = .ok userid ∧
      ∀ r s, typed ⟨k,added⟩ (.hgetall uuid) r s ↔ r = .ok fields ∧ s = ⟨k,added⟩ := by
  obtain ⟨fields,expires,held,some,number⟩ := session.live
  exact ⟨fields,some,number,fun r s => by simp [typed,exec,held,record]⟩

/-- A download leaves all but the files as it is, and these too unless `open` creates one. -/
theorem sentFiles_keeps {env : Env} {fh : Fileheader} {filename : Bytes} {list : List (Int × Bytes × UInt64)}
    {w w' : World} (sent : SentFiles env fh filename list w w') :
    w'.store.redis = w.store.redis ∧ w'.store.table = w.store.table := by
  induction sent with
  | nil | notOpened => exact ⟨rfl,rfl⟩
  | cons first _ ih =>
    cases first with
    | mk => exact ih

/-- The array for the name runs over the thread's stack, which ends the server. -/
structure Overflowed (env : Env) (q : Request) (w : World) (out : Except Halt Unit) (w' : World) : Prop where
  out : out = .error .stackOverflow
  same : w' = w
  full : env.memoryFails ∨ ¬ env.kernel.arrays (namelenOf q.record + 1).toNat

section runs
variable {env : Env} {task : Nat} {md5 : Bytes → Digest} {q : Download} {uuid output : Bytes}
  {userid : UInt64} {redis : Redis.State} {table : List Row} {files : Files}

theorem download_cases (answers : env.redis = typed) (reads : ∀ c, ¬ env.readFails c)
    (session : SessionOf redis.keys uuid userid) (key : ∀ beyond, uuidOf q.record beyond = uuid)
    {out : Except Halt Unit} {w' : World}
    (run : Runs (Sys env task) (process md5) ⟨q.conn output,⟨redis,table,files⟩⟩ out w') :
    ∃ sent, Sent env (userValidation true) 1 sent ∧ (Overflowed env q.toRequest
      ⟨⟨q.name ++ (q.header ++ q.body),q.ended,output ++ sent⟩,⟨redis,table,files⟩⟩ out w' ∨
      env.kernel.arrays (namelenOf q.record + 1).toNat ∧ Downloaded env q.fileheader q.filename userid
        ⟨⟨q.body,q.ended,output ++ sent⟩,⟨redis,table,files⟩⟩ out w') := by
  obtain ⟨keys,added⟩ := redis
  obtain ⟨fields,some,number,only⟩ := @session_typed keys added uuid userid session
  have taken {got : Bytes} {c : Conn} (record : Received env (q.conn output) sizeofDatauuid got c)
      (beyond : Bytes) : uuidOf (filled sizeofDatauuid got) beyond = uuid := by
    obtain ⟨rfl,-⟩ := record.whole rfl q.recordSize fun c _ => reads c
    rw [filled_of_length q.recordSize,key]
  cases process_cases run with
  | refused refused =>
    cases refused with
    | failed record asked =>
      rw [taken record,answers,only] at asked
      exact absurd asked.1 (by simp)
    | unknown record asked =>
      rw [taken record,answers,only] at asked
      exact absurd (Except.ok.inj asked.1).symm some
    | notNumber record asked bad =>
      rw [taken record,answers,only] at asked
      obtain rfl := Except.ok.inj asked.1
      rw [number] at bad
      cases bad
    | badLength record _ _ bad =>
      obtain ⟨rfl,-⟩ := record.whole rfl q.recordSize fun c _ => reads c
      rw [filled_of_length q.recordSize] at bad
      exact absurd q.named bad
    | noRoom record valid answer _ _ full =>
      obtain ⟨_,asked,_⟩ := valid.live
      rw [taken record,answers,only] at asked
      obtain ⟨-,rfl⟩ := asked
      obtain ⟨rfl,rfl,-⟩ := record.whole rfl q.recordSize fun c _ => reads c
      rw [filled_of_length q.recordSize] at full
      exact ⟨_,answer,.inl ⟨rfl,rfl,full⟩⟩
  | upload accepted wanted =>
    obtain ⟨_,rfl,_⟩ := accepted_request accepted fun c _ => reads c
    exact absurd (q.wanted.symm.trans wanted) (by simp)
  | download accepted _ done =>
    have room := accepted_room accepted fun c _ => reads c
    obtain ⟨rfl,rfl,beyond,sent,r,valid,answer,rfl⟩ := accepted_request accepted fun c _ => reads c
    obtain ⟨_,asked,_,same⟩ := valid.live
    rw [key,answers,only] at asked
    obtain ⟨reply,rfl⟩ := asked
    obtain rfl := Except.ok.inj reply
    obtain rfl := Except.ok.inj (number.symm.trans same)
    exact ⟨sent,answer,.inr ⟨room,done⟩⟩

end runs

/-- For each item a header with its index and length, and then its bytes. -/
inductive Delivery (dirid : Int) : List (Int × Bytes) → Bytes → Prop
  | nil : Delivery dirid [] []
  | cons {index : Int} {chunk raw rest : Bytes} {items : List (Int × Bytes)}
      (fresh : raw.length = sizeofFileheader) (others : Delivery dirid items rest) :
      Delivery dirid ((index,chunk) :: items)
        (Fileheader.assigned raw dirid index false chunk.length ++ (chunk ++ rest))

/-- The same headers, where only `pages` are there to be sent after each of them. -/
inductive Served (dirid : Int) (pages : Bytes) : List (Int × Bytes) → Bytes → Prop
  | nil : Served dirid pages [] []
  | cons {index : Int} {chunk raw body rest : Bytes} {items : List (Int × Bytes)}
      (fresh : raw.length = sizeofFileheader) (part : body <+: pages.take chunk.length)
      (whole : chunk.length ≤ pages.length → body = pages.take chunk.length)
      (others : Served dirid pages items rest) :
      Served dirid pages ((index,chunk) :: items)
        (Fileheader.assigned raw dirid index false chunk.length ++ (body ++ rest))

def streamLength (items : List (Int × Bytes)) : Nat :=
  (items.map fun item => sizeofFileheader + item.2.length).sum

section streams
variable {dirid : Int} {pages : Bytes}

theorem delivery_length {items : List (Int × Bytes)} {out : Bytes} (delivery : Delivery dirid items out) :
    out.length = streamLength items := by
  induction delivery with
  | nil => rfl
  | cons fresh _ ih =>
    simp only [streamLength,List.map_cons,List.sum_cons,List.length_append,length_assigned fresh] at ih ⊢
    rw [ih,sizeofFileheader]
    omega

theorem served_length {items : List (Int × Bytes)} {out : Bytes} (served : Served dirid pages items out) :
    out.length ≤ streamLength items := by
  induction served with
  | nil => exact Nat.le_refl _
  | cons fresh part _ _ ih =>
    have less := part.length_le
    simp only [streamLength,List.map_cons,List.sum_cons,List.length_append,length_assigned fresh,
      List.length_take,sizeofFileheader] at ih less ⊢
    omega

theorem delivery_of_served {items : List (Int × Bytes)} {out : Bytes}
    (served : Served dirid pages items out) (starts : ∀ item ∈ items, item.2 <+: pages) :
    Delivery dirid items out := by
  induction served with
  | nil => exact .nil
  | @cons index chunk raw body rest items fresh part whole _ ih =>
    have first : chunk <+: pages := starts (index,chunk) (by simp)
    have same : body = chunk := by
      rw [whole first.length_le]
      exact (List.prefix_iff_eq_take.mp first).symm
    rw [same]
    exact .cons fresh (ih fun item member => starts item (by simp [member]))

theorem delivery_of_full {items : List (Int × Bytes)} {out : Bytes}
    (served : Served dirid pages items out) (full : streamLength items ≤ out.length) :
    Delivery dirid (items.map fun item => (item.1,pages.take item.2.length)) out ∧
      ∀ item ∈ items, item.2.length ≤ pages.length := by
  induction served with
  | nil => exact ⟨.nil,nofun⟩
  | @cons index chunk raw body rest items fresh part whole others ih =>
    have less := part.length_le
    have bound := served_length others
    simp only [streamLength,List.map_cons,List.sum_cons,List.length_append,length_assigned fresh,
      List.length_take,sizeofFileheader] at full less bound
    have enough : chunk.length ≤ pages.length := by omega
    obtain ⟨delivered,sizes⟩ := ih (by simp only [streamLength,sizeofFileheader]; omega)
    have shown : (pages.take chunk.length).length = chunk.length := by simp [enough]
    refine ⟨?_,fun item member => ?_⟩
    · have step := @Delivery.cons dirid index (pages.take chunk.length) raw _ _ fresh delivered
      rw [shown] at step
      rw [whole enough]
      exact step
    · rcases List.mem_cons.mp member with rfl | old
      · exact enough
      · exact sizes item old

theorem assigned_filelen {raw raw' : Bytes} (size : raw.length = 40) (size' : raw'.length = 40)
    {dirid dirid' index index' : Int} {upload upload' : Bool} {n m : Nat} (small : n < 2 ^ 63)
    (small' : m < 2 ^ 63) (same : Fileheader.assigned raw dirid index upload n =
      Fileheader.assigned raw' dirid' index' upload' m) : n = m := by
  have last : ofInt 8 (n : Int) = ofInt 8 (m : Int) := by
    rw [← filelen_field size dirid index upload,same,filelen_field size']
  have value := congrArg signed last
  rw [signed_ofInt 7 _ (by omega) (by norm_num; omega),
    signed_ofInt 7 _ (by omega) (by norm_num; omega)] at value
  exact_mod_cast value

/-- The client finds the chunks in the stream by the lengths of the headers. -/
theorem delivery_chunks {items others : List (Int × Bytes)} {out : Bytes}
    (first : Delivery dirid items out) (second : Delivery dirid others out)
    (small : ∀ item ∈ items, item.2.length < 2 ^ 63) (small' : ∀ item ∈ others, item.2.length < 2 ^ 63) :
    items.map Prod.snd = others.map Prod.snd := by
  have length := (delivery_length first).symm.trans (delivery_length second)
  induction first generalizing others with
  | nil =>
    cases others with
    | nil => rfl
    | cons =>
      simp only [streamLength,List.map_nil,List.sum_nil,List.map_cons,List.sum_cons,
        sizeofFileheader] at length
      omega
  | @cons index chunk raw rest items fresh delivery ih =>
    cases others with
    | nil => simp [streamLength,sizeofFileheader] at length
    | cons item others =>
      generalize whole : Fileheader.assigned raw dirid index false chunk.length ++ (chunk ++ rest) = out at second
      cases second with
      | @cons index' chunk' raw' rest' _ fresh' delivery' =>
        obtain ⟨header,body⟩ := List.append_inj whole
          ((length_assigned fresh _ _ _ _).trans (length_assigned fresh' _ _ _ _).symm)
        have same := assigned_filelen fresh fresh' (small (index,chunk) (by simp))
          (small' (index',chunk') (by simp)) header
        obtain ⟨rfl,rfl⟩ := List.append_inj body same
        have others := ih delivery' (fun item member => small item (by simp [member]))
          (fun item member => small' item (by simp [member]))
          ((delivery_length delivery).symm.trans (delivery_length delivery'))
        simp only [List.map_cons,others]

theorem starts_of_delivery {items others : List (Int × Bytes)} {out : Bytes}
    (served : Served dirid pages items out) (delivery : Delivery dirid others out)
    (same : items.Perm others) (small : ∀ item ∈ others, item.2.length < 2 ^ 63) :
    ∀ item ∈ others, item.2 <+: pages := by
  have total : streamLength items = out.length := by
    rw [delivery_length delivery]
    exact (same.map _).sum_eq
  obtain ⟨sent,enough⟩ := delivery_of_full served total.le
  have chunks := delivery_chunks sent delivery (fun item member => ?_) small
  · intro item member
    have chunk : item.2 ∈ others.map Prod.snd := List.mem_map_of_mem member
    rw [← chunks,List.map_map] at chunk
    obtain ⟨other,_,prefix'⟩ := List.mem_map.mp chunk
    rw [← prefix']
    exact List.take_prefix _ _
  · obtain ⟨other,inside,rfl⟩ := List.mem_map.mp member
    have bound := small other (same.mem_iff.mp inside)
    simp only [List.length_take]
    omega

end streams

structure Entry (row : Int × Bytes × UInt64) (item : Int × Bytes) : Prop where
  index : row.1 = item.1
  size : row.2.2.toNat = item.2.length

theorem toSigned_small {size : UInt64} (small : size.toNat < 2 ^ 31) : toSigned size = size.toNat :=
  Int.bmod_eq_of_le (by omega) (by omega)

theorem sentFile_served {env : Env} {fh : Fileheader} {filename : Bytes} {row : Int × Bytes × UInt64}
    {item : Int × Bytes} {w w' : World} (disk : ¬ env.diskFails) (writes : ¬ env.writeFails)
    (entry : Entry row item) (small : item.2.length < 2 ^ 31)
    (first : SentFile env fh filename row w w') : ∃ raw body, raw.length = sizeofFileheader ∧
      body <+: (w.store.files.pages (resolve env.cwd filename)).take item.2.length ∧
      (item.2.length ≤ (w.store.files.pages (resolve env.cwd filename)).length →
        body = (w.store.files.pages (resolve env.cwd filename)).take item.2.length) ∧
      w'.conn.output = w.conn.output ++
        (Fileheader.assigned raw fh.dirid item.1 false item.2.length ++ body) ∧
      w'.store.files = w.store.files.create (resolve env.cwd filename) := by
  obtain ⟨index,chunk⟩ := item
  cases first with
  | @mk _ index' filepath raw head body size data opened mapped fresh headed sent =>
    obtain ⟨rfl,length⟩ := entry
    dsimp only at length small
    have signed : toSigned size = chunk.length := by rw [toSigned_small (by omega),length]
    have count : (toInt (toSigned size)).toNat = chunk.length := by
      rw [signed,toInt_eq_self (by omega) (by omega)]
      rfl
    rw [count] at sent
    -- What can be sent of the mapping is the start of the pages.
    have ready : ((Source.mapped data 0).bytes (w.store.files.create (resolve env.cwd filename))).take
        chunk.length = (w.store.files.pages (resolve env.cwd filename)).take chunk.length := by
      rcases mapped with ⟨rfl,_⟩ | ⟨rfl,fails | zero | large⟩
      · have fits := Files.le_pageRound size.toNat
        rw [length] at fits
        simp only [Source.bytes,List.drop_zero,Files.pages_create,List.take_take,length]
        rw [min_eq_left fits]
      · exact absurd fails disk
      · have none : chunk.length = 0 := by omega
        simp [none]
      · unfold addressSpace at large
        omega
    have header : head = Fileheader.assigned raw fh.dirid index' false chunk.length := by
      have whole := headed.whole writes (length_assigned fresh _ _ _ _).ge
      rw [whole,signed]
      exact List.take_of_length_le (length_assigned fresh _ _ _ _).le
    refine ⟨raw,body,fresh,ready ▸ sent.upTo,fun enough => ?_,?_,rfl⟩
    · rw [← ready]
      apply sent.whole writes
      have shown := congrArg List.length ready
      simp only [List.length_take] at shown enough
      omega
    · simp [Conn.wrote,header]

theorem sentFiles_served {env : Env} {fh : Fileheader} {filename : Bytes}
    {rows : List (Int × Bytes × UInt64)} {items : List (Int × Bytes)} {w w' : World}
    (disk : ¬ env.diskFails) (opens : env.kernel.opens filename) (writes : ¬ env.writeFails)
    (entries : List.Forall₂ Entry rows items) (small : ∀ item ∈ items, item.2.length < 2 ^ 31) (sent : SentFiles env fh filename rows w w') :
    ∃ out, w'.conn.output = w.conn.output ++ out ∧
      Served fh.dirid (w.store.files.pages (resolve env.cwd filename)) items out := by
  induction sent generalizing items with
  | nil w =>
    cases entries
    exact ⟨[],by simp,.nil⟩
  | notOpened w fails => exact absurd opens (fails.resolve_left disk)
  | cons first _ ih =>
    cases entries with
    | @cons _ item _ items entry entries =>
      obtain ⟨raw,body,fresh,part,whole,output,files⟩ :=
        sentFile_served disk writes entry (small item (by simp)) first
      obtain ⟨out,rest,served⟩ := ih entries fun item member => small item (by simp [member])
      rw [files,Files.pages_create] at served
      refine ⟨_,?_,.cons fresh part whole served⟩
      rw [rest,output]
      simp only [List.append_assoc]

def mappable (pages : Bytes) (size : UInt64) : Bytes :=
  if 0 < size.toNat ∧ size.toNat < addressSpace then pages.take (Files.pageRound size.toNat) else []

def stream (dirid : Int) (pages : Bytes) : List (Int × Bytes × UInt64) → Bytes
  | [] => []
  | (index,_,size) :: rest =>
    Fileheader.assigned (zeros sizeofFileheader) dirid index false (toSigned size) ++
      ((mappable pages size).take (toInt (toSigned size)).toNat ++ stream dirid pages rest)

section possible
variable {env : Env} {task : Nat}

theorem can_sendFiles {fh : Fileheader} {filename : Bytes} (opens : env.kernel.opens filename)
    (rows : List (Int × Bytes × UInt64)) {w : World} :
    Can (Sys env task) (sendFiles fh filename rows) (fun out w' => out = .ok () ∧
      w'.conn.output = w.conn.output ++
        stream fh.dirid (w.store.files.pages (resolve env.cwd filename)) rows ∧
      w'.store.files = if rows = [] then w.store.files else
        w.store.files.create (resolve env.cwd filename)) w := by
  induction rows generalizing w with
  | nil => exact can_ret ⟨rfl,by simp [stream],rfl⟩
  | cons row rest ih =>
    obtain ⟨index,filepath,size⟩ := row
    obtain ⟨data,mapped,bytes⟩ : ∃ data : Option Mapping,
        Sys env task {w with store := {w.store with
          files := w.store.files.create (resolve env.cwd filename)}}
          (.mmap (resolve env.cwd filename) size) data {w with store := {w.store with
            files := w.store.files.create (resolve env.cwd filename)}} ∧
        (Source.mapped data 0).bytes (w.store.files.create (resolve env.cwd filename)) =
          mappable (w.store.files.pages (resolve env.cwd filename)) size := by
      by_cases fits : 0 < size.toNat ∧ size.toNat < addressSpace
      · exact ⟨some _,⟨rfl,.inl ⟨rfl,fits⟩⟩,by simp [Source.bytes,mappable,fits]⟩
      · exact ⟨none,⟨rfl,.inr ⟨rfl,.inr (by omega)⟩⟩,by simp [Source.bytes,mappable,fits]⟩
    refine can_bind (can_ask (.inl ⟨rfl,opens,rfl⟩) ?_)
    apply can_bind
    apply can_ask mapped
    refine can_bind (can_ask (r := zeros sizeofFileheader) ⟨rfl,length_zeros _⟩ ?_)
    refine can_bind (can_send _ _ (can_bind (can_send _ _ ?_)))
    refine can_bind (can_ask (r := ()) rfl (can_bind (can_ask (r := ()) rfl ?_)))
    obtain ⟨out,w',run,rfl,output,files⟩ := @ih _
    refine ⟨_,w',run,rfl,?_,by rw [files]; simp [Files.create_create]⟩
    rw [output]
    dsimp only
    rw [bytes,Files.pages_create]
    have header : (Fileheader.assigned (zeros sizeofFileheader) fh.dirid index false
        (toSigned size)).take (toInt sizeofFileheader).toNat = Fileheader.assigned
          (zeros sizeofFileheader) fh.dirid index false (toSigned size) :=
      List.take_of_length_le (length_assigned (length_zeros _) _ _ _ _).le
    simp only [stream,Source.bytes,header,List.append_assoc]

theorem can_validate {redis : Redis.State} {table : List Row} {files : Files} {c : Conn}
    {uuid : Bytes} {userid : UInt64} {post : Except Halt (Bool × UInt64) → World → Prop}
    (allows : ∀ s c r s', typed s c r s' → env.redis s c r s')
    (session : SessionOf redis.keys uuid userid)
    (after : post (.ok (true,userid)) ⟨c,⟨redis,table,files⟩⟩) :
    Can (Sys env task) (validate uuid) post ⟨c,⟨redis,table,files⟩⟩ := by
  obtain ⟨keys,added⟩ := redis
  obtain ⟨fields,some,number,only⟩ := @session_typed keys added uuid userid session
  have answered : env.redis ⟨keys,added⟩ (.hgetall uuid) (.ok fields) ⟨keys,added⟩ :=
    allows _ _ _ _ ((only _ _).mpr ⟨rfl,rfl⟩)
  refine can_bind (can_bind (can_ask ⟨_,answered,rfl⟩ (can_ret ?_)))
  have found : fields.length ≠ 0 := by simpa using some
  dsimp only [After]
  rw [if_pos found,number]
  exact can_ret after

/-- The request of a user who is logged in is read and comes to its branch of `process`. -/
theorem can_request {md5 : Bytes → Digest} {q : Request} {beyond output : Bytes} {userid : UInt64}
    {redis : Redis.State} {table : List Row} {files : Files} {post : Except Halt Unit → World → Prop}
    (answers : env.redis = typed) (session : SessionOf redis.keys (uuidOf q.record beyond) userid)
    (named : 0 ≤ namelenOf q.record ∧ namelenOf q.record + 1 < 2 ^ 31)
    (room : env.kernel.arrays (namelenOf q.record + 1).toNat)
    (branch : Can (Sys env task) (if q.fileheader.upload then upload md5 q.fileheader q.filename userid
      else downloadfile q.fileheader q.filename userid) post
      ⟨⟨q.body,q.ended,output ++ userValidation true⟩,⟨redis,table,files⟩⟩) :
    Can (Sys env task) (process md5) post ⟨q.conn output,⟨redis,table,files⟩⟩ := by
  refine can_bind (can_receive_whole _ (show (q.conn output).input = q.record ++ _ from rfl)
    q.recordSize ?_)
  refine can_bind (can_ask (r := beyond) rfl ?_)
  rw [overlay_zeros q.recordSize]
  dsimp only [After]
  have allows : ∀ s c r s', typed s c r s' → env.redis s c r s' := fun _ _ _ _ same => by rwa [answers]
  refine can_bind (can_validate allows session (can_bind (can_send _ _ ?_)))
  dsimp only [After]
  rw [if_pos rfl,if_pos named]
  refine can_bind (can_ask (r := true) ⟨rfl,.inl ⟨rfl,room⟩⟩ ?_)
  dsimp only [After]
  rw [if_pos rfl]
  refine can_bind (can_receive_whole _ (show q.name ++ (q.header ++ q.body) = q.name ++ _ from rfl) ?_ ?_)
  · rw [toInt_eq_self named.1 (by have := named.2; omega),q.nameSize]
  apply can_bind
  apply can_receive_whole _ (show q.header ++ q.body = q.header ++ _ from rfl) q.headerSize
  rw [overlay_zeros q.headerSize]
  dsimp only [After]
  rw [filename_read named.1]
  exact branch

/-- A download comes to the loop of `downloadfile` with the rows in any order. -/
theorem can_process {md5 : Bytes → Digest} {q : Download} {uuid output : Bytes} {userid : UInt64}
    {redis : Redis.State} {table : List Row} {files : Files} {cells : List Cells}
    {rows : List (Int × Bytes × UInt64)} {post : Except Halt Unit → World → Prop}
    (answers : env.redis = typed) (session : SessionOf redis.keys uuid userid)
    (key : ∀ beyond, uuidOf q.record beyond = uuid) (room : env.kernel.arrays (namelenOf q.record + 1).toNat)
    (order : cells.Perm ((selected table userid (toUnsigned q.fileheader.dirid) q.filename).map Row.cells))
    (found : cells.mapM Cells.item = some rows)
    (sends : Can (Sys env task) (sendFiles q.fileheader q.filename rows) post
      ⟨⟨q.body,q.ended,output ++ userValidation true⟩,⟨redis,table,files⟩⟩) :
    Can (Sys env task) (process md5) post ⟨q.conn output,⟨redis,table,files⟩⟩ := by
  have live : SessionOf redis.keys (uuidOf q.record []) userid := by rwa [key]
  apply can_request answers live q.named room
  rw [if_neg (by rw [Request.fileheader,q.wanted]; exact Bool.false_ne_true)]
  refine can_bind (can_bind (can_ask ⟨rfl,.inl ⟨_,rfl,order⟩⟩ ?_))
  dsimp only [After]
  rw [found]
  exact can_ret sends

theorem can_download {md5 : Bytes → Digest} {q : Download} {uuid output : Bytes} {userid : UInt64}
    {redis : Redis.State} {table : List Row} {files : Files} {rows : List (Int × Bytes × UInt64)}
    (answers : env.redis = typed) (session : SessionOf redis.keys uuid userid)
    (key : ∀ beyond, uuidOf q.record beyond = uuid) (room : env.kernel.arrays (namelenOf q.record + 1).toNat)
    (opens : env.kernel.opens q.filename)
    (found : ((selected table userid (toUnsigned q.fileheader.dirid) q.filename).map Row.cells).mapM Cells.item =
      some rows) :
    Can (Sys env task) (process md5) (fun out w' => out = .ok () ∧
      w'.conn.output = output ++ (userValidation true ++
        stream q.fileheader.dirid (files.pages (resolve env.cwd q.filename)) rows))
      ⟨q.conn output,⟨redis,table,files⟩⟩ := by
  apply can_process answers session key room (.refl _) found
  obtain ⟨out,w',run,done,sent,-⟩ := @can_sendFiles env task q.fileheader q.filename opens rows _
  refine ⟨out,w',run,done,?_⟩
  rw [sent,List.append_assoc]

end possible

/-- The chunk is what the header of the upload declares. -/
structure Complete (md5 : Bytes → Digest) (u : Upload) (chunk : Bytes) : Prop where
  digest : md5 chunk = u.fileheader.md5
  length : u.fileheader.filelen = chunk.length
  small : chunk.length < 2 ^ 31

/-- The chunks that a user's uploads recorded for a directory and a name, with the index of
each. -/
def uploaded (uploads : List (Handling × Bytes)) (userid : UInt64) (dirid : Int) (filename : Bytes) :
    List (Int × Bytes) :=
  uploads.filterMap fun (h,chunk) => h.row.bind fun row =>
    if row.userid = userid ∧ row.dirid = dirid ∧ row.filepath = filename then
      row.index.map fun index => (index,chunk)
    else none

theorem toUnsigned_toNat {x : Int} (low : 0 ≤ x) (high : x < 2 ^ 63) : ((toUnsigned x).toNat : Int) = x := by
  unfold toUnsigned
  rw [UInt64.ofInt,UInt64.toNat_ofNat']
  omega

theorem Complete.size {md5 : Bytes → Digest} {u : Upload} {chunk : Bytes}
    (declared : Complete md5 u chunk) : (toUnsigned u.fileheader.filelen).toNat = chunk.length := by
  have small := declared.small
  have value := @toUnsigned_toNat u.fileheader.filelen
  rw [declared.length] at value ⊢
  have same := value (by omega) (by omega)
  exact_mod_cast same

theorem matchesFile_newRow {fh : Fileheader} {filename wanted : Bytes} {owner userid : UInt64} {dirid : Int}
    (low : 0 ≤ dirid) (high : dirid < 2 ^ 63) :
    Row.matchesFile userid (toUnsigned dirid) wanted (newRow fh filename owner) = true ↔
      owner = userid ∧ fh.dirid = dirid ∧ filename = wanted := by
  simp [Row.matchesFile,newRow,toUnsigned_toNat low high,and_assoc]

theorem selected_entries {md5 : Bytes → Digest} {uploads : List (Handling × Bytes)}
    {userid : UInt64} {dirid : Int} {filename : Bytes} (low : 0 ≤ dirid) (high : dirid < 2 ^ 63)
    (complete : ∀ x ∈ uploads, Complete md5 x.1.upload x.2)
    (rows : ∀ x ∈ uploads, ∀ row ∈ x.1.row, ∃ userid,
      row = newRow x.1.upload.fileheader x.1.upload.filename userid) :
    List.Forall₂ (fun cells item => ∃ row, Cells.item cells = some row ∧ Entry row item)
      ((selected (uploads.filterMap (·.1.row)) userid (toUnsigned dirid) filename).map Row.cells)
      (uploaded uploads userid dirid filename) := by
  induction uploads with
  | nil => exact .nil
  | cons x uploads ih =>
    have rest := ih (fun y member => complete y (by simp [member]))
      (fun y member => rows y (by simp [member]))
    obtain ⟨h,chunk⟩ := x
    cases found : h.row with
    | none => simpa [uploaded,selected,found] using rest
    | some row =>
      obtain ⟨owner,rfl⟩ := rows (h,chunk) (by simp) row found
      have declared := complete (h,chunk) (by simp)
      have matching := @matchesFile_newRow h.upload.fileheader h.upload.filename filename owner userid _ low high
      by_cases wanted : owner = userid ∧ h.upload.fileheader.dirid = dirid ∧ h.upload.filename = filename
      · have first : selected (newRow h.upload.fileheader h.upload.filename owner ::
            uploads.filterMap (·.1.row)) userid (toUnsigned dirid) filename = newRow h.upload.fileheader
              h.upload.filename owner :: selected (uploads.filterMap (·.1.row)) userid
                (toUnsigned dirid) filename := List.filter_cons_of_pos (matching.mpr wanted)
        have item : uploaded ((h,chunk) :: uploads) userid dirid filename =
            (h.upload.fileheader.index,chunk) :: uploaded uploads userid dirid filename := by
          apply List.filterMap_cons_some
          simp only [found,Option.bind_some]
          exact if_pos wanted
        rw [List.filterMap_cons_some (a := (h,chunk)) found,first,item]
        exact .cons ⟨_,rfl,rfl,declared.size⟩ rest
      · have first : selected (newRow h.upload.fileheader h.upload.filename owner ::
            uploads.filterMap (·.1.row)) userid (toUnsigned dirid) filename =
              selected (uploads.filterMap (·.1.row)) userid (toUnsigned dirid) filename :=
          List.filter_cons_of_neg fun holds => wanted (matching.mp holds)
        have item : uploaded ((h,chunk) :: uploads) userid dirid filename =
            uploaded uploads userid dirid filename := by
          apply List.filterMap_cons_none
          simp only [found,Option.bind_some]
          exact if_neg wanted
        rw [List.filterMap_cons_some (a := (h,chunk)) found,first,item]
        exact rest

theorem items_of_entries {cells : List Cells} {items : List (Int × Bytes)}
    (entries : List.Forall₂ (fun cells item => ∃ row, Cells.item cells = some row ∧ Entry row item)
      cells items) : ∃ rows, cells.mapM Cells.item = some rows ∧ List.Forall₂ Entry rows items := by
  induction entries with
  | nil => exact ⟨[],rfl,.nil⟩
  | cons first _ ih =>
    obtain ⟨row,item,entry⟩ := first
    obtain ⟨rows,rest,others⟩ := ih
    exact ⟨row :: rows,by simp [item,rest],.cons entry others⟩

/-- The answer brings a header and the chunk for each of the user's uploads of the file. -/
def Delivered (uploads : List (Handling × Bytes)) (userid : UInt64) (q : Download) (output : Bytes) : Prop :=
  ∃ items sent, items.Perm (uploaded uploads userid q.fileheader.dirid q.filename) ∧
    Delivery q.fileheader.dirid items sent ∧ output = userValidation true ++ sent

section download
variable {md5 : Bytes → Digest} {cwd : File} {uploads : List (Handling × Bytes)} {s : Store}
  {q : Download} {uuid : Bytes} {userid : UInt64} {redis : Redis.State}

theorem uploaded_small (complete : ∀ x ∈ uploads, Complete md5 x.1.upload x.2) (dirid : Int)
    (filename : Bytes) : ∀ item ∈ uploaded uploads userid dirid filename, item.2.length < 2 ^ 31 := by
  intro item member
  obtain ⟨⟨h,chunk⟩,inside,row⟩ := List.mem_filterMap.mp member
  have small := (complete _ inside).small
  simp only [Option.bind_eq_some_iff] at row
  obtain ⟨row,_,matched⟩ := row
  split_ifs at matched
  obtain ⟨index,_,rfl⟩ := Option.map_eq_some_iff.mp matched
  exact small

theorem dirid_lt (q : Download) : q.fileheader.dirid < 2 ^ 63 := by
  have size : (slice q.header 0 8).length = 7 + 1 := by
    simp [slice,q.headerSize,sizeofFileheader]
  have bound := signed_lt size
  simp only [Request.fileheader,Fileheader.read]
  omega

theorem uploads_entries (history : History md5 cwd (uploads.map Prod.fst) s)
    (complete : ∀ x ∈ uploads, Complete md5 x.1.upload x.2) {dirid : Int} (low : 0 ≤ dirid)
    (userid : UInt64) (filename : Bytes) (high : dirid < 2 ^ 63) :
    List.Forall₂ (fun cells item => ∃ row, Cells.item cells = some row ∧ Entry row item)
      ((selected s.table userid (toUnsigned dirid) filename).map Row.cells)
      (uploaded uploads userid dirid filename) := by
  obtain ⟨table,rows⟩ := history_rows history
  rw [table,List.filterMap_map]
  refine selected_entries low high complete fun x member => rows x.1 (List.mem_map_of_mem member)

theorem download_served (history : History md5 cwd (uploads.map Prod.fst) s)
    (complete : ∀ x ∈ uploads, Complete md5 x.1.upload x.2) (session : SessionOf redis.keys uuid userid)
    (key : ∀ beyond, uuidOf q.record beyond = uuid) (low : 0 ≤ q.fileheader.dirid) {task : Nat}
    {out : Except Halt Unit} {w' : World}
    (run : Runs (Sys (calm cwd) task) (process md5) ⟨q.conn [],⟨redis,s.table,s.files⟩⟩ out w') :
    out = .ok () ∧ ∃ items sent,
      items.Perm (uploaded uploads userid q.fileheader.dirid q.filename) ∧
      Served q.fileheader.dirid (s.files.pages (resolve cwd q.filename)) items sent ∧
      w'.conn.output = userValidation true ++ sent := by
  obtain ⟨head,answer,full | ⟨-,done⟩⟩ := download_cases rfl (fun _ => not_false) session key run
  · exact absurd trivial (full.full.resolve_left id)
  have whole : head = userValidation true := answer.whole not_false (Nat.le_refl _)
  have entries := uploads_entries history complete low userid q.filename
  cases done with
  | noResult fails => exact fails.elim
  | null order null =>
    obtain ⟨items,rows,_⟩ := List.perm_comp_forall₂ order (entries (dirid_lt q))
    obtain ⟨found,some,_⟩ := items_of_entries rows
    rw [null] at some
    cases some
  | files order found sent =>
    obtain ⟨items,rows,same⟩ := List.perm_comp_forall₂ order (entries (dirid_lt q))
    obtain ⟨list,some,rows⟩ := items_of_entries rows
    obtain rfl := Option.some.inj (found.symm.trans some)
    have small : ∀ item ∈ items, item.2.length < 2 ^ 31 := fun item member =>
      uploaded_small complete _ _ item (same.mem_iff.mp member)
    obtain ⟨body,output,served⟩ := sentFiles_served not_false trivial not_false rows small sent
    refine ⟨rfl,items,body,same,served,?_⟩
    rw [output,whole]
    rfl

/-- A download brings back what was uploaded exactly when every chunk starts what is on
disk under the client's own name for the file. -/
theorem download_delivers_iff (history : History md5 cwd (uploads.map Prod.fst) s)
    (complete : ∀ x ∈ uploads, Complete md5 x.1.upload x.2) (session : SessionOf redis.keys uuid userid)
    (key : ∀ beyond, uuidOf q.record beyond = uuid) (low : 0 ≤ q.fileheader.dirid) (task : Nat) :
    ((∃ out w', Runs (Sys (calm cwd) task) (process md5) ⟨q.conn [],⟨redis,s.table,s.files⟩⟩ out w') ∧
      ∀ out w', Runs (Sys (calm cwd) task) (process md5) ⟨q.conn [],⟨redis,s.table,s.files⟩⟩ out w' →
        out = .ok () ∧ Delivered uploads userid q w'.conn.output) ↔
      ∀ item ∈ uploaded uploads userid q.fileheader.dirid q.filename,
        item.2 <+: s.files.pages (resolve cwd q.filename) := by
  constructor
  · rintro ⟨⟨out,w',run⟩,all⟩
    obtain ⟨-,items,sent,same,delivery,output⟩ := all out w' run
    obtain ⟨-,others,body,same',served,output'⟩ := download_served history complete session key low run
    obtain rfl : sent = body := List.append_cancel_left (output.symm.trans output')
    have small : ∀ item ∈ items, item.2.length < 2 ^ 63 := fun item member =>
      (uploaded_small complete _ _ item (same.mem_iff.mp member)).trans (by norm_num)
    intro item member
    exact starts_of_delivery served delivery (same'.trans same.symm) small item (same.mem_iff.mpr member)
  · intro starts
    refine ⟨?_,fun out w' run => ?_⟩
    · obtain ⟨rows,found,_⟩ := items_of_entries
        (uploads_entries history complete low userid q.filename (dirid_lt q))
      obtain ⟨out,w',run,_⟩ : Can (Sys (calm cwd) task) (process md5) _
          ⟨q.conn [],⟨redis,s.table,s.files⟩⟩ := can_download rfl session key trivial trivial found
      exact ⟨out,w',run⟩
    · obtain ⟨returned,items,sent,same,served,output⟩ :=
        download_served history complete session key low run
      exact ⟨returned,items,sent,same,delivery_of_served served fun item member =>
        starts item (same.mem_iff.mp member),output⟩

end download

def sampleDownload : Download where
  toRequest := .encode (ascii "s1") (ascii "f") ⟨0,fun _ => 0,0,false,0⟩ [] false first_key_short name_short
  wanted := rfl
  named := by decide

def sampleUploads : List (Handling × Bytes) := [(⟨sampleFirst,sampleStart,sampleStored⟩,ascii "a")]

theorem sample_stored : History sampleMd5 [] (sampleUploads.map Prod.fst) sampleStored :=
  .next (.start sampleKeys) sampleStored_handled.1

theorem sample_complete : ∀ x ∈ sampleUploads, Complete sampleMd5 x.1.upload x.2 := by
  intro x member
  obtain rfl := List.mem_singleton.mp member
  exact ⟨by decide,by decide,by decide⟩

theorem sample_session : SessionOf sampleKeys (ascii "s1") 1 :=
  ⟨_,_,if_pos rfl,by simp,by decide⟩

theorem sample_key (beyond : Bytes) : uuidOf sampleDownload.record beyond = ascii "s1" :=
  uuidOf_recordOf (by decide) (by decide) _ _

theorem sample_delivers_iff :
    ((∃ out w', Runs (Sys (calm []) 1) (process sampleMd5)
        ⟨sampleDownload.conn [],⟨⟨sampleKeys,[]⟩,sampleStored.table,sampleStored.files⟩⟩ out w') ∧
      ∀ out w', Runs (Sys (calm []) 1) (process sampleMd5)
        ⟨sampleDownload.conn [],⟨⟨sampleKeys,[]⟩,sampleStored.table,sampleStored.files⟩⟩ out w' →
        out = .ok () ∧ Delivered sampleUploads 1 sampleDownload w'.conn.output) ↔
      ∀ item ∈ uploaded sampleUploads 1 sampleDownload.fileheader.dirid sampleDownload.filename,
        item.2 <+: sampleStored.files.pages (resolve [] sampleDownload.filename) :=
  download_delivers_iff sample_stored sample_complete sample_session sample_key (by decide) 1

/-- The user who uploaded `"a"` gets its header back, and not the byte. -/
theorem upload_not_returned : ¬ ∀ (md5 : Bytes → Digest) (cwd : File) (uploads : List (Handling × Bytes))
    (s : Store), History md5 cwd (uploads.map Prod.fst) s →
    (∀ x ∈ uploads, Complete md5 x.1.upload x.2) → ∀ (q : Download) (uuid : Bytes) (userid : UInt64)
    (redis : Redis.State), SessionOf redis.keys uuid userid → (∀ beyond, uuidOf q.record beyond = uuid) →
    0 ≤ q.fileheader.dirid → ∀ (task : Nat) (out : Except Halt Unit) (w' : World),
    Runs (Sys (calm cwd) task) (process md5) ⟨q.conn [],⟨redis,s.table,s.files⟩⟩ out w' →
    Delivered uploads userid q w'.conn.output := by
  intro claim
  have answer : ((respond [] 1).run 100 (process sampleMd5) ⟨sampleDownload.conn [],
      ⟨⟨sampleKeys,[]⟩,sampleStored.table,sampleStored.files⟩⟩).map (·.2.conn.output.length) = some 41 := by
    decide +kernel
  obtain ⟨⟨out,w'⟩,ran,length⟩ := Option.map_eq_some_iff.mp answer
  obtain ⟨items,sent,same,delivery,output⟩ := claim sampleMd5 [] sampleUploads sampleStored
    sample_stored sample_complete sampleDownload _ 1 ⟨sampleKeys,[]⟩ sample_session sample_key (by decide)
    1 out w' (Responder.run_sound (respond_within [] 1) _ _ _ _ _ ran)
  have one : streamLength (uploaded sampleUploads 1 sampleDownload.fileheader.dirid
      sampleDownload.filename) = 41 := by decide +kernel
  have total : streamLength items = 41 := by
    rw [← one]
    exact (same.map _).sum_eq
  dsimp only at length
  rw [output,List.length_append,delivery_length delivery,total] at length
  exact absurd length (by decide)

end FilediskServer.Downloads
