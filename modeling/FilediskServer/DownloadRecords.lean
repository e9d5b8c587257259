import FilediskServer.Library.Traces
import FilediskServer.Downloads

/-! The stream of a download as the client has to take it apart: a header, as many bytes as
it announces, and so on. The header is sent before anything of the data, whatever became of
`mmap`. -/
namespace FilediskServer.DownloadRecords
open Interaction Bytes CusInfo Disk Calls SocketIO FileTask FileTaskRuns Downloads

abbrev Item := Int × Bytes × UInt64

/-- For each row the header made for it and as many bytes as the header's `filelen` says. -/
inductive Records (dirid : Int) : List Item → Bytes → Prop
  | nil : Records dirid [] []
  | cons {index : Int} {filepath raw body more : Bytes} {filesize : UInt64} {items : List Item}
      (fresh : raw.length = sizeofFileheader)
      (announced : (Fileheader.read (Fileheader.assigned raw dirid index false
        (toSigned filesize))).filelen = body.length)
      (others : Records dirid items more) : Records dirid ((index,filepath,filesize) :: items)
        (Fileheader.assigned raw dirid index false (toSigned filesize) ++ (body ++ more))

/-- All that a header announces is there to be sent. -/
def Whole (pages : Bytes) (filesize : UInt64) (mapped : Bool) : Prop :=
  filesize.toNat = 0 ∨ mapped = true ∧ filesize.toNat < 2 ^ 31 ∧ filesize.toNat ≤ pages.length

/-- What the loop writes for rows that were opened, each with what became of `mmap`. -/
inductive Written (dirid : Int) (pages : Bytes) : List (Item × Bool) → Bytes → Prop
  | nil : Written dirid pages [] []
  | cons {index : Int} {filepath raw body more : Bytes} {filesize : UInt64} {mapped : Bool}
      {items : List (Item × Bool)} (fresh : raw.length = sizeofFileheader)
      (bound : body.length ≤ filesize.toNat)
      (whole : body.length = filesize.toNat ↔ Whole pages filesize mapped)
      (others : Written dirid pages items more) :
      Written dirid pages (((index,filepath,filesize),mapped) :: items)
        (Fileheader.assigned raw dirid index false (toSigned filesize) ++ (body ++ more))

def announcedLength (items : List Item) : Nat :=
  (items.map fun item => sizeofFileheader + item.2.2.toNat).sum

theorem toSigned_bounds (x : UInt64) : -2 ^ 63 ≤ toSigned x ∧ toSigned x < 2 ^ 63 := by
  have low := @Int.le_bmod x.toNat (2 ^ 64) (by norm_num)
  have high := @Int.bmod_lt x.toNat (2 ^ 64) (by norm_num)
  unfold toSigned
  omega

theorem toSigned_nonneg {x : UInt64} (positive : 0 ≤ toSigned x) : toSigned x = x.toNat := by
  have small := x.toNat_lt
  unfold toSigned at positive ⊢
  rw [Int.bmod_def] at positive ⊢
  split_ifs at positive ⊢ <;> omega

section streams
variable {dirid : Int} {pages : Bytes}

/-- A header announces its row's size, where this is not read as a negative number. -/
theorem announces {raw body : Bytes} {index : Int} {filesize : UInt64}
    (fresh : raw.length = sizeofFileheader)
    (announced : (Fileheader.read (Fileheader.assigned raw dirid index false
      (toSigned filesize))).filelen = body.length) : body.length = filesize.toNat := by
  have bounds := toSigned_bounds filesize
  rw [filelen_assigned fresh dirid index false bounds.1 bounds.2] at announced
  rw [toSigned_nonneg (by omega)] at announced
  omega

theorem records_length {items : List Item} {out : Bytes} (records : Records dirid items out) :
    out.length = announcedLength items := by
  induction records with
  | nil => rfl
  | cons fresh announced _ ih =>
    have size := announces fresh announced
    simp only [announcedLength,List.map_cons,List.sum_cons,List.length_append,length_assigned fresh,
      sizeofFileheader] at ih ⊢
    omega

theorem written_length {items : List (Item × Bool)} {out : Bytes} (written : Written dirid pages items out) :
    out.length ≤ announcedLength (items.map Prod.fst) := by
  induction written with
  | nil => exact Nat.le_refl _
  | cons fresh bound whole _ ih =>
    simp only [announcedLength,List.map_cons,List.sum_cons,List.length_append,length_assigned fresh,
      sizeofFileheader] at ih ⊢
    omega

theorem small_of_whole {filesize : UInt64} {mapped : Bool} (whole : Whole pages filesize mapped) :
    filesize.toNat < 2 ^ 31 := by
  rcases whole with zero | ⟨-,small,-⟩
  · omega
  · exact small

/-- The stream is whole records exactly when all the data was there. -/
theorem records_iff {items : List (Item × Bool)} {out : Bytes} (written : Written dirid pages items out) :
    Records dirid (items.map Prod.fst) out ↔ ∀ x ∈ items, Whole pages x.1.2.2 x.2 := by
  induction written with
  | nil => simp [Records.nil]
  | @cons index filepath raw body more filesize mapped items fresh bound whole others ih =>
    rw [List.map_cons,List.forall_mem_cons,← ih]
    constructor
    · intro records
      have upTo := written_length others
      generalize shape : Fileheader.assigned raw dirid index false (toSigned filesize) ++ (body ++ more) = out
        at records
      cases records with
      | @cons _ _ raw' body' more' _ _ fresh' announced' others' =>
        have size := announces fresh' announced'
        have total := records_length others'
        obtain ⟨-,rest⟩ := List.append_inj shape
          ((length_assigned fresh _ _ _ _).trans (length_assigned fresh' _ _ _ _).symm)
        -- What follows is too short to make up for a byte that is missing here.
        have lengths := congrArg List.length rest
        rw [List.length_append,List.length_append] at lengths
        obtain ⟨-,rfl⟩ := List.append_inj rest (by omega)
        exact ⟨whole.mp (by omega),others'⟩
    · rintro ⟨first,records⟩
      refine .cons fresh ?_ records
      rw [toSigned_small (small_of_whole first),filelen_assigned fresh _ _ _ (by omega)
        (by have := small_of_whole first; omega)]
      exact_mod_cast (whole.mpr first).symm

end streams

/-- What became of each `mmap`, in order. -/
def noteMapped (mapped : List Bool) : Event signature → List Bool
  | ⟨.mmap ..,m⟩ => mapped ++ [Option.isSome m]
  | _ => mapped

theorem toInt_lt (size : Int) : toInt size < 2 ^ 31 := by
  have high := @Int.bmod_lt size (2 ^ 32) (by norm_num)
  unfold toInt
  omega

theorem count_small {filesize : UInt64} (small : filesize.toNat < 2 ^ 31) :
    (toInt (toSigned filesize)).toNat = filesize.toNat := by
  rw [toSigned_small small,toInt_eq_self (by omega) (by omega)]
  rfl

section loop
variable {env : Env} {task : Nat} {filename : Bytes} {w : World}

theorem body_whole {file : File} {files : Files} {filesize : UInt64} {data : Option Mapping} {body : Bytes}
    (mapped : (data = some ⟨file,filesize.toNat⟩ ∧ 0 < filesize.toNat ∧ filesize.toNat < addressSpace) ∨
      (data = none ∧ (env.diskFails ∨ filesize.toNat = 0 ∨ addressSpace ≤ filesize.toNat)))
    (writes : ¬ env.writeFails)
    (sent : Sent env ((Source.mapped data 0).bytes files) (toInt (toSigned filesize)).toNat body) :
    body.length ≤ filesize.toNat ∧
      (body.length = filesize.toNat ↔ Whole (files.pages file) filesize data.isSome) := by
  have upTo := sent.upTo.length_le
  have low := toInt_lt (toSigned filesize)
  have same := @count_small filesize
  rw [List.length_take] at upTo
  refine ⟨by omega,?_⟩
  rcases mapped with ⟨rfl,positive,-⟩ | ⟨rfl,-⟩
  · have rounded := Files.le_pageRound filesize.toNat
    have short := sent.short
    simp only [Source.bytes,List.drop_zero,List.length_take] at upTo short
    constructor
    · exact fun all => .inr ⟨rfl,by omega,by omega⟩
    · rintro (zero | ⟨-,small,enough⟩)
      · omega
      · rw [same small] at upTo short
        by_contra part
        have missing := (short (by omega)).resolve_left writes
        omega
  · have none : body.length = 0 := by
      simp only [Source.bytes,List.length_nil] at upTo
      omega
    constructor
    · exact fun all => .inl (by omega)
    · rintro (zero | ⟨mapped,-⟩)
      · omega
      · cases mapped

/-- No note is made of what is not an `mmap`. -/
theorem wp_unnoted {α : Type} {p : Job α} {mapped : List Bool} {post : Except Halt α → World → Prop}
    (holds : Wp (Sys env task) (fun _ c => ∀ fd n, c ≠ .mmap fd n) p post w) :
    Wp (Tracked noteMapped (Sys env task)) (fun _ _ => True) p
      (fun out x => post out x.2 ∧ x.1 = mapped) (mapped,w) := by
  refine wp_allow (fun _ _ _ => trivial) (wp_tracked (K := (· = mapped)) rfl ?_ holds)
  rintro _ _ c r rfl other
  cases c with
  | mmap fd n => exact absurd rfl (other fd n)
  | _ => rfl

theorem wp_send_unnoted {msg : Source} {size : Int} {mapped : List Bool}
    {post : Except Halt Unit → List Bool × World → Prop}
    (after : ∀ sent, Sent env (msg.bytes w.store.files) (toInt size).toNat sent →
      post (.ok ()) (mapped,{w with conn := {w.conn with output := w.conn.output ++ sent}})) :
    Wp (Tracked noteMapped (Sys env task)) (fun _ _ => True) (send msg size) post (mapped,w) := by
  have sends : Wp (Sys env task) (fun _ c => ∀ fd n, c ≠ .mmap fd n) (send msg size)
      (fun out v => post out (mapped,v)) w := wp_send msg size (fun _ _ _ _ _ _ => nofun) after
  refine wp_mono ?_ (wp_unnoted sends)
  rintro out ⟨_,v⟩ ⟨reached,rfl⟩
  exact reached

theorem wp_ask_noted {c : Call} {mapped : List Bool} {post : Except Halt c.Res → List Bool × World → Prop}
    (after : ∀ r w', Sys env task w c r w' → post (.ok r) (noteMapped mapped ⟨c,r⟩,w')) :
    Wp (Tracked noteMapped (Sys env task)) (fun _ _ => True) (ask c) post (mapped,w) := by
  refine ⟨trivial,fun r x answered => ?_⟩
  obtain ⟨_,w'⟩ := x
  obtain ⟨rfl,answer⟩ := answered
  exact after r w' answer

theorem wp_sendFiles_written {fh : Fileheader} (writes : ¬ env.writeFails) (rows : List Item)
    (mapped : List Bool) : Wp (Tracked noteMapped (Sys env task)) (fun _ _ => True)
      (sendFiles fh filename rows) (fun _ x => ∃ now sent, x.1 = mapped ++ now ∧ now.length ≤ rows.length ∧
        x.2.conn.output = w.conn.output ++ sent ∧
        Written fh.dirid (w.store.files.pages (resolve env.cwd filename)) (rows.zip now) sent) (mapped,w) := by
  induction rows generalizing mapped w with
  | nil => exact ⟨[],[],by simp,le_rfl,by simp,.nil⟩
  | cons row rest ih =>
    obtain ⟨index,filepath,filesize⟩ := row
    apply wp_bind
    apply wp_ask_noted
    rintro fd w' (⟨rfl,opened,rfl⟩ | ⟨rfl,fails,rfl⟩)
    · apply wp_bind
      apply wp_ask_noted
      rintro data w' ⟨rfl,became⟩
      apply wp_bind
      apply wp_ask_noted
      rintro raw w' ⟨rfl,fresh⟩
      apply wp_bind
      apply wp_send_unnoted
      intro head headed
      apply wp_bind
      apply wp_send_unnoted
      intro body sent
      apply wp_bind
      apply wp_ask_noted
      rintro _ w' rfl
      apply wp_bind
      apply wp_ask_noted
      rintro _ w' rfl
      refine wp_mono ?_ (ih (mapped ++ [data.isSome]))
      rintro _ ⟨_,v⟩ ⟨now,more,rfl,count,output,written⟩
      have header : head = Fileheader.assigned raw fh.dirid index false (toSigned filesize) := by
        have whole := headed.whole writes (length_assigned fresh _ _ _ _).ge
        rw [whole]
        exact List.take_of_length_le (length_assigned fresh _ _ _ _).le
      obtain ⟨bound,whole⟩ := body_whole became writes sent
      rw [Files.pages_create] at written whole
      refine ⟨data.isSome :: now,_,by simp,by simpa using count,?_,.cons fresh bound whole written⟩
      rw [output,header]
      simp only [List.append_assoc]
    · exact ⟨[],[],(List.append_nil _).symm,Nat.zero_le _,by simp,.nil⟩

/-- On a connection that does not fail, the rows that were opened are sent as whole records
exactly when the data of each was there: none of it was announced, or the mapping stood, the
length fits an `int` and the file's pages go so far. -/
theorem sendFiles_records_iff {fh : Fileheader} {rows : List Item} {mapped : List Bool}
    {out : Except Halt Unit} {w' : World} (writes : ¬ env.writeFails)
    (run : Runs (Tracked noteMapped (Sys env task)) (sendFiles fh filename rows) ([],w) out (mapped,w')) :
    (∃ sent, w'.conn.output = w.conn.output ++ sent ∧
      Records fh.dirid (rows.take mapped.length) sent) ↔
      ∀ x ∈ rows.zip mapped, Whole (w.store.files.pages (resolve env.cwd filename)) x.1.2.2 x.2 := by
  obtain ⟨now,sent,same,count,output,written⟩ := wp_runs run (wp_sendFiles_written writes rows [])
  obtain rfl : mapped = now := same
  have served : (rows.zip mapped).map Prod.fst = rows.take mapped.length := by
    rw [List.zip_eq_zip_take_min,Nat.min_eq_right count,List.take_length,List.map_fst_zip (by simp)]
  rw [← served,← records_iff written]
  constructor
  · rintro ⟨body,same,records⟩
    rwa [List.append_cancel_left (output.symm.trans same)]
  · exact fun records => ⟨sent,output,records⟩

end loop

/-- A file of one byte, and no other. -/
def sampleWorld : World :=
  ⟨⟨[],true,[]⟩,⟨⟨fun _ => none,[]⟩,[],
    fun file => if file = [ascii "f"] then some [⟨0,ascii "a"⟩] else none⟩⟩

def sampleHeader : Fileheader := ⟨0,fun _ => 0,0,false,0⟩

/-- The file's one page has the byte of the first row and not all that the second asks for. -/
def sampleRows : List Item := [(0,[],1),(1,[],5000)]

theorem sample_records_iff : ∃ mapped out w',
    Runs (Tracked noteMapped (Sys (calm []) 1)) (sendFiles sampleHeader (ascii "f") sampleRows)
      ([],sampleWorld) out (mapped,w') ∧
    ((∃ sent, w'.conn.output = sampleWorld.conn.output ++ sent ∧
        Records sampleHeader.dirid (sampleRows.take mapped.length) sent) ↔
      ∀ x ∈ sampleRows.zip mapped,
        Whole (sampleWorld.store.files.pages (resolve [] (ascii "f"))) x.1.2.2 x.2) := by
  have runs : ((respond [] 1).run 100 (sendFiles sampleHeader (ascii "f") sampleRows)
      sampleWorld).isSome := by decide +kernel
  obtain ⟨⟨out,w'⟩,ran⟩ := Option.isSome_iff_exists.mp runs
  obtain ⟨mapped,run⟩ : ∃ mapped,
      Runs (Tracked noteMapped (Sys (calm []) 1)) _ ([],sampleWorld) out (mapped,w') :=
    runs_tracked (Responder.run_sound (respond_within [] 1) _ _ _ _ _ ran) []
  exact ⟨mapped,out,w',run,sendFiles_records_iff not_false run⟩

/-- Five bytes are announced of a file that is not there, and none is sent. -/
theorem header_without_data : ¬ ∀ (env : Env) (task : Nat) (fh : Fileheader) (filename : Bytes)
    (rows : List Item) (w w' : World) (out : Except Halt Unit), ¬ env.writeFails →
    (∀ row ∈ rows, row.2.2.toNat < 2 ^ 63) → Runs (Sys env task) (sendFiles fh filename rows) w out w' →
    ∃ items sent, w'.conn.output = w.conn.output ++ sent ∧ Records fh.dirid items sent := by
  intro claim
  have wrote : ((respond [] 1).run 100 (sendFiles sampleHeader (ascii "g") [(0,[],5)]) sampleWorld).map
      (fun end' => (end'.2.conn.output.length,(Fileheader.read end'.2.conn.output).filelen)) =
        some (40,5) := by
    decide +kernel
  obtain ⟨⟨out,w'⟩,ran,shape⟩ := Option.map_eq_some_iff.mp wrote
  obtain ⟨length,announced⟩ := Prod.ext_iff.mp shape
  obtain ⟨items,sent,output,records⟩ := claim (calm []) 1 sampleHeader (ascii "g") [(0,[],5)] sampleWorld w' out
    not_false (by decide) (Responder.run_sound (respond_within [] 1) _ _ _ _ _ ran)
  dsimp only at length announced
  rw [output,show sampleWorld.conn.output = [] from rfl,List.nil_append] at length announced
  cases records with
  | nil => cases length
  | @cons index filepath raw body more filesize items fresh filelen others =>
    rw [List.length_append,length_assigned fresh,List.length_append] at length
    obtain rfl : body = [] := List.length_eq_zero_iff.mp (by omega)
    obtain rfl : more = [] := List.length_eq_zero_iff.mp (by omega)
    rw [List.append_nil,List.append_nil,filelen] at announced
    cases announced

end FilediskServer.DownloadRecords
