import FilediskServer.UploadPhases

/-! Any number of uploads at the same time. The file of a digest is appended to by each call
that was told it is not there. -/
namespace FilediskServer.ConcurrentUploads
open Interaction Bytes CusInfo Redis Filetree Disk Calls FileTask UploadHistory UploadPhases

abbrev Uploads := Pool signature Halt Unit Nat (Conn × Phase) Store

def phaseOf (s : Uploads) (i : Nat) : Phase := (s.threads i).2.2

/-- Every call has its connection, on which earlier requests may have been answered. -/
def Uploads.start (md5 : Bytes → Digest) (uploads : Nat → Upload) (outputs : Nat → Bytes)
    (store : Store) : Uploads :=
  ⟨fun i => (process md5,((uploads i).conn (outputs i),.asking)),store⟩

def UploadStep (cwd : File) (uploads : Nat → Upload) (s s' : Uploads) : Prop :=
  ∃ i event, Turn (fun i => uploading cwd (uploads i) i) i s event s'

def inFiledisk (name : Bytes) : File := [ascii "home",ascii "filedisk",name]

/-- Every file under `/home/filedisk` holds what one call wrote, and is named by its digest. -/
def StoredOnce (md5 : Bytes → Digest) (s : Uploads) : Prop :=
  ∀ name blocks, s.shared.files (inFiledisk name) = some blocks →
    ∃ i b, blocks = [⟨i,b⟩] ∧ name = hex (md5 b).bytes

/-- Every call that has come to its `open` has finished. -/
def Settled (s : Uploads) : Prop := ∀ i path, phaseOf s i = .opened path ∨ (phaseOf s i).Wrote path →
  (s.threads i).1 = .ret () ∨ ∃ e, (s.threads i).1 = .throw e

/-- Of two calls that write one path, the first has its row in the table when the second is
told that the path is not there. -/
def OneByOne (run : List Uploads) : Prop := ∀ path i j, i ≠ j →
  (∃ s ∈ run, (phaseOf s i).Wrote path) → (∃ s ∈ run, (phaseOf s j).Wrote path) →
  ∀ s ∈ run, ¬ ((phaseOf s i).Pending path ∧ (phaseOf s j).Pending path)

section steps
variable {cwd : File} {uploads : Nat → Upload} {md5 : Bytes → Digest} {s s' : Uploads}

def Ordered (cwd : File) (uploads : Nat → Upload) (md5 : Bytes → Digest) (s : Uploads) : Prop :=
  ∀ j, Wp (Alone (uploading cwd (uploads j) j)) (InOrder md5) (s.threads j).1 NotOpened (s.threads j).2

theorem ordered_start (outputs : Nat → Bytes) (store : Store) :
    Ordered cwd uploads md5 (Uploads.start md5 uploads outputs store) :=
  fun j => wp_uploading (outputs j)

theorem ordered_step (ordered : Ordered cwd uploads md5 s) (step : UploadStep cwd uploads s s') :
    Ordered cwd uploads md5 s' := by
  obtain ⟨i,event,turn⟩ := step
  exact (turn_wp (S := signature) (fun _ => InOrder md5) (fun _ => NotOpened) turn ordered).2

theorem step_effect (ordered : Ordered cwd uploads md5 s) (step : UploadStep cwd uploads s s') :
    ∃ i, (∀ j, j ≠ i → phaseOf s' j = phaseOf s j) ∧
      StepEffect md5 i (phaseOf s i) (phaseOf s' i) s.shared s'.shared := by
  obtain ⟨i,event,turn⟩ := step
  have allowed := (turn_wp (S := signature) (fun _ => InOrder md5) (fun _ => NotOpened) turn ordered).1
  refine ⟨i,fun j other => ?_,?_⟩
  · rw [phaseOf,turn_other turn other,phaseOf]
  · cases turn with
    | @mk p l g up step =>
      simp only [phaseOf,Function.update_self]
      generalize (s.threads i).1 = job at step
      cases step with
      | call answered => exact answer_effect (allowed _ rfl) answered
      | loop => exact .quiet rfl rfl (List.prefix_refl _)

/-- What the phases say about the disk and the table. -/
structure Matches (md5 : Bytes → Digest) (s : Uploads) : Prop where
  named : ∀ name, s.shared.files (inFiledisk name) ≠ none → ∃ d : Digest, name = hex d.bytes
  missing : ∀ d, s.shared.files (hashFile d) = none →
    ∀ i, phaseOf s i ≠ .opened (hashPath d) ∧ ¬ (phaseOf s i).Wrote (hashPath d)
  blocks : ∀ d blocks, s.shared.files (hashFile d) = some blocks →
    (blocks.map Block.writer).Nodup ∧ (∀ b ∈ blocks, md5 b.data = d) ∧
      ∀ i, i ∈ blocks.map Block.writer ↔ (phaseOf s i).Wrote (hashPath d)
  empty : ∀ d, s.shared.files (hashFile d) = some [] → ∃ i, phaseOf s i = .opened (hashPath d)
  digests : ∀ i path, (phaseOf s i).Wrote path → ∃ d, path = hashPath d
  rows : ∀ i path, phaseOf s i = .recorded path → 0 < pathCount s.shared.table path

theorem matches_start {outputs : Nat → Bytes} {store : Store}
    (empty : ∀ name, store.files (inFiledisk name) = none) :
    Matches md5 (Uploads.start md5 uploads outputs store) := by
  have none (d : Digest) : store.files (hashFile d) = .none := empty _
  refine ⟨fun name held => absurd (empty name) held,?_,?_,?_,?_,?_⟩
  · exact fun d _ i => ⟨nofun,by rintro (same | same) <;> cases same⟩
  · exact fun d blocks held => absurd ((none d).symm.trans held) nofun
  · exact fun d held => absurd ((none d).symm.trans held) nofun
  · rintro i path (same | same) <;> cases same
  · exact nofun

theorem matches_files (held : Matches md5 s) (files : s'.shared.files = s.shared.files)
    (opened : ∀ i path, phaseOf s' i = .opened path ↔ phaseOf s i = .opened path)
    (wrote : ∀ i path, (phaseOf s' i).Wrote path ↔ (phaseOf s i).Wrote path)
    (rows : ∀ i path, phaseOf s' i = .recorded path → 0 < pathCount s'.shared.table path) :
    Matches md5 s' := by
  refine ⟨?_,?_,?_,?_,fun i path after => held.digests i path ((wrote i path).mp after),rows⟩
  · rw [files]
    exact held.named
  · intro d missing i
    rw [files] at missing
    rw [ne_eq,opened,wrote]
    exact held.missing d missing i
  · intro d blocks present
    rw [files] at present
    obtain ⟨nodup,right,writers⟩ := held.blocks d blocks present
    exact ⟨nodup,right,fun i => (writers i).trans (wrote i _).symm⟩
  · intro d present
    rw [files] at present
    obtain ⟨i,before⟩ := held.empty d present
    exact ⟨i,(opened i _).mpr before⟩

/-- A step on one file leaves to show what the phases say about that file. -/
theorem matches_file {d : Digest} {blocks : Blocks} (held : Matches md5 s)
    (here : s'.shared.files (hashFile d) = some blocks)
    (elsewhere : ∀ f, f ≠ hashFile d → s'.shared.files f = s.shared.files f)
    (alike : ∀ d', d' ≠ d → ∀ j,
      (phaseOf s' j = .opened (hashPath d') ↔ phaseOf s j = .opened (hashPath d')) ∧
        ((phaseOf s' j).Wrote (hashPath d') ↔ (phaseOf s j).Wrote (hashPath d')))
    (own : (blocks.map Block.writer).Nodup ∧ (∀ b ∈ blocks, md5 b.data = d) ∧
      ∀ j, j ∈ blocks.map Block.writer ↔ (phaseOf s' j).Wrote (hashPath d))
    (unwritten : blocks = [] → ∃ j, phaseOf s' j = .opened (hashPath d))
    (digests : ∀ j path, (phaseOf s' j).Wrote path → ∃ d, path = hashPath d)
    (rows : ∀ j path, phaseOf s' j = .recorded path → 0 < pathCount s'.shared.table path) :
    Matches md5 s' := by
  refine ⟨fun name present => ?_,fun d' missing j => ?_,fun d' blocks' present => ?_,
    fun d' present => ?_,digests,rows⟩
  · by_cases same : inFiledisk name = hashFile d
    · exact ⟨d,by simpa [inFiledisk,hashFile] using same⟩
    · rw [elsewhere _ same] at present
      exact held.named name present
  · have other : d' ≠ d := by
      intro same
      rw [same,here] at missing
      cases missing
    rw [elsewhere _ (hashFile_injective.ne other)] at missing
    rw [ne_eq,(alike d' other j).1,(alike d' other j).2]
    exact held.missing d' missing j
  · by_cases same : d' = d
    · subst same
      obtain rfl := Option.some.inj (here.symm.trans present)
      exact own
    · rw [elsewhere _ (hashFile_injective.ne same)] at present
      obtain ⟨nodup,right,writers⟩ := held.blocks d' blocks' present
      exact ⟨nodup,right,fun j => (writers j).trans (alike d' same j).2.symm⟩
  · by_cases same : d' = d
    · subst same
      exact unwritten (Option.some.inj (here.symm.trans present))
    · rw [elsewhere _ (hashFile_injective.ne same)] at present
      obtain ⟨j,opened⟩ := held.empty d' present
      exact ⟨j,(alike d' same j).1.mpr opened⟩

theorem rows_kept {i : Nat} (held : Matches md5 s) (others : ∀ j, j ≠ i → phaseOf s' j = phaseOf s j)
    (unrecorded : ∀ path, phaseOf s' i ≠ .recorded path) (table : s'.shared.table = s.shared.table)
    (j : Nat) (path : Bytes) (recorded : phaseOf s' j = .recorded path) :
    0 < pathCount s'.shared.table path := by
  have other : j ≠ i := by
    intro same
    exact unrecorded path (same ▸ recorded)
  rw [others j other] at recorded
  rw [table]
  exact held.rows j path recorded

theorem matches_opened {i : Nat} {d : Digest} (held : Matches md5 s)
    (others : ∀ j, j ≠ i → phaseOf s' j = phaseOf s j) (before : phaseOf s i = .absent (hashPath d))
    (after : phaseOf s' i = .opened (hashPath d))
    (files : s'.shared.files = s.shared.files.create (hashFile d))
    (table : s'.shared.table = s.shared.table) : Matches md5 s' := by
  have wrote (j : Nat) (path : Bytes) : (phaseOf s' j).Wrote path ↔ (phaseOf s j).Wrote path := by
    by_cases same : j = i
    · simp [same,before,after,Phase.Wrote]
    · rw [others j same]
  have here : s'.shared.files (hashFile d) = some ((s.shared.files (hashFile d)).getD []) := by
    rw [files,Files.create_self]
  apply matches_file held here
  · intro f other
    rw [files,Files.create_other _ other]
  · intro d' other j
    refine ⟨?_,wrote j _⟩
    by_cases same : j = i
    · simp [same,before,after,hashPath_injective.eq_iff,other.symm]
    · rw [others j same]
  · cases old : s.shared.files (hashFile d) with
    | none =>
      have unwritten (j : Nat) : ¬ (phaseOf s' j).Wrote (hashPath d) := by
        rw [wrote]
        exact (held.missing d old j).2
      simp [unwritten]
    | some blocks =>
      obtain ⟨nodup,right,writers⟩ := held.blocks d blocks old
      exact ⟨nodup,right,fun j => (writers j).trans (wrote j _).symm⟩
  · exact fun _ => ⟨i,after⟩
  · exact fun j path written => held.digests j path ((wrote j path).mp written)
  · exact rows_kept held others (by simp [after]) table

theorem matches_written {i : Nat} {b : Bytes} (held : Matches md5 s)
    (others : ∀ j, j ≠ i → phaseOf s' j = phaseOf s j)
    (before : phaseOf s i = .opened (hashPath (md5 b)))
    (after : phaseOf s' i = .written (hashPath (md5 b)))
    (files : s'.shared.files = s.shared.files.append (hashFile (md5 b)) ⟨i,b⟩)
    (table : s'.shared.table = s.shared.table) : Matches md5 s' := by
  obtain ⟨blocks,old⟩ : ∃ blocks, s.shared.files (hashFile (md5 b)) = some blocks := by
    apply Option.ne_none_iff_exists'.mp
    intro missing
    exact (held.missing _ missing i).1 before
  have here : s'.shared.files (hashFile (md5 b)) = some (blocks ++ [⟨i,b⟩]) := by
    rw [files,Files.append_self,old]
    rfl
  apply matches_file held here
  · intro f other
    rw [files,Files.append_other _ _ other]
  · intro d other j
    by_cases same : j = i
    · simp [same,before,after,Phase.Wrote,hashPath_injective.eq_iff,other.symm]
    · rw [others j same]
      exact ⟨Iff.rfl,Iff.rfl⟩
  · obtain ⟨nodup,right,writers⟩ := held.blocks _ blocks old
    have first : i ∉ blocks.map Block.writer := by
      rw [writers,before]
      simp [Phase.Wrote]
    refine ⟨?_,?_,fun j => ?_⟩
    · rw [List.map_append]
      exact nodup.append (List.nodup_singleton i) (by simpa using first)
    · exact List.forall_mem_append.mpr ⟨right,by simp⟩
    · by_cases same : j = i
      · simp [same,after,Phase.Wrote]
      · rw [others j same,← writers j]
        simp [same]
  · intro empty
    simp at empty
  · intro j path written
    by_cases same : j = i
    · rw [same,after] at written
      rcases written with written | recorded
      · exact ⟨_,(Phase.written.inj written).symm⟩
      · cases recorded
    · rw [others j same] at written
      exact held.digests j path written
  · exact rows_kept held others (by simp [after]) table

theorem pathCount_le {table table' : List Row} (grown : table <+: table') (path : Bytes) :
    pathCount table path ≤ pathCount table' path := grown.sublist.countP_le

theorem matches_step (ordered : Ordered cwd uploads md5 s) (held : Matches md5 s)
    (step : UploadStep cwd uploads s s') : Matches md5 s' := by
  obtain ⟨i,others,effect⟩ := step_effect ordered step
  cases effect with
  | opened d before after files table => exact matches_opened held others before after files table
  | written b before after files table => exact matches_written held others before after files table
  | quiet same files table =>
    have still (j : Nat) : phaseOf s' j = phaseOf s j := by
      by_cases moved : j = i
      · rw [moved,same]
      · exact others j moved
    apply matches_files held files (fun j path => by rw [still]) (fun j path => by rw [still])
    intro j path recorded
    rw [still] at recorded
    exact (held.rows j path recorded).trans_le (pathCount_le table path)
  | absent d before after unknown files table =>
    apply matches_files held files
    · intro j path
      by_cases moved : j = i
      · simp [moved,before,after]
      · rw [others j moved]
    · intro j path
      by_cases moved : j = i
      · simp [moved,before,after,Phase.Wrote]
      · rw [others j moved]
    · exact rows_kept held others (by simp [after]) table
  | recorded row before after files table =>
    refine matches_files held files (fun j path => ?_) (fun j path => ?_) fun j path recorded => ?_
    · by_cases moved : j = i
      · simp [moved,before,after]
      · rw [others j moved]
    · by_cases moved : j = i
      · simp [moved,before,after,Phase.Wrote]
      · rw [others j moved]
    · rw [table]
      by_cases moved : j = i
      · rw [moved,after] at recorded
        obtain rfl := Phase.recorded.inj recorded
        exact pathCount_pos.mpr ⟨row,by simp,rfl⟩
      · rw [others j moved] at recorded
        exact (held.rows j path recorded).trans_le (pathCount_le (List.prefix_append _ _) path)

theorem wrote_step {j : Nat} {path : Bytes} (ordered : Ordered cwd uploads md5 s)
    (step : UploadStep cwd uploads s s') (wrote : (phaseOf s j).Wrote path) :
    (phaseOf s' j).Wrote path := by
  obtain ⟨i,others,effect⟩ := step_effect ordered step
  by_cases moved : j = i
  · subst moved
    cases effect with
    | quiet same => rwa [same]
    | absent d before | opened d before | written b before =>
      rw [before] at wrote
      rcases wrote with same | same <;> cases same
    | recorded row before after =>
      rw [before] at wrote
      rcases wrote with same | same
      · exact .inr (after.trans (congrArg _ (Phase.written.inj same)))
      · cases same
  · rwa [others j moved]

/-- Told that the path is absent, with or without a row in the table since. -/
def Engaged (s : Uploads) (i : Nat) (path : Bytes) : Prop :=
  (phaseOf s i).Pending path ∨ phaseOf s i = .recorded path

theorem engaged_of_wrote {i : Nat} {path : Bytes} (wrote : (phaseOf s i).Wrote path) :
    Engaged s i path := by
  rcases wrote with written | recorded
  · exact .inl (.inr (.inr written))
  · exact .inr recorded

theorem engaged_before {j : Nat} {path : Bytes} (ordered : Ordered cwd uploads md5 s)
    (step : UploadStep cwd uploads s s') (engaged : Engaged s' j path) : Engaged s j path ∨
      ((phaseOf s' j).Pending path ∧ pathCount s.shared.table path = 0 ∧
        ∀ k, k ≠ j → phaseOf s' k = phaseOf s k) := by
  obtain ⟨i,others,effect⟩ := step_effect ordered step
  by_cases moved : j = i
  · subst moved
    have only {p : Phase} (after : phaseOf s' j = p) : (p.Pending path) ∨ p = .recorded path := by
      rw [← after]
      exact engaged
    cases effect with
    | quiet same => exact .inl (by rwa [Engaged,← same])
    | absent d before after unknown =>
      have path : hashPath d = path := by simpa [Phase.Pending] using only after
      subst path
      exact .inr ⟨.inl after,unknown,others⟩
    | opened d before after =>
      have path : hashPath d = path := by simpa [Phase.Pending] using only after
      exact .inl (.inl (.inl (by rw [before,path])))
    | written b before after =>
      have path : hashPath (md5 b) = path := by simpa [Phase.Pending] using only after
      exact .inl (.inl (.inr (.inl (by rw [before,path]))))
    | recorded row before after =>
      have path : row.hashfilepath = path := by simpa [Phase.Pending] using only after
      exact .inl (.inl (.inr (.inr (by rw [before,path]))))
  · left
    rwa [Engaged,← others j moved]

theorem apart_step {i j : Nat} {path : Bytes} (ordered : Ordered cwd uploads md5 s) (held : Matches md5 s)
    (different : i ≠ j) (step : UploadStep cwd uploads s s')
    (apart : ¬ (Engaged s i path ∧ Engaged s j path))
    (guard : ¬ ((phaseOf s' i).Pending path ∧ (phaseOf s' j).Pending path)) :
    ¬ (Engaged s' i path ∧ Engaged s' j path) := by
  have late {k l : Nat} (other : l ≠ k) (pending : (phaseOf s' k).Pending path)
      (unknown : pathCount s.shared.table path = 0) (others : ∀ l, l ≠ k → phaseOf s' l = phaseOf s l)
      (engaged : Engaged s' l path) : (phaseOf s' k).Pending path ∧ (phaseOf s' l).Pending path := by
    refine ⟨pending,engaged.resolve_right fun recorded => ?_⟩
    rw [others l other] at recorded
    have known := held.rows l path recorded
    omega
  rintro ⟨first,second⟩
  rcases engaged_before ordered step first with before | ⟨pending,unknown,others⟩
  · rcases engaged_before ordered step second with before' | ⟨pending,unknown,others⟩
    · exact apart ⟨before,before'⟩
    · exact guard (late different pending unknown others first).symm
  · exact guard (late different.symm pending unknown others second)

theorem not_opened_of_finished {i : Nat} (ordered : Ordered cwd uploads md5 s)
    (finished : (s.threads i).1 = .ret () ∨ ∃ e, (s.threads i).1 = .throw e) (path : Bytes) :
    phaseOf s i ≠ .opened path := by
  have wp := ordered i
  rcases finished with same | ⟨e,same⟩
  · rw [same] at wp
    exact wp path
  · rw [same] at wp
    exact wp path

theorem stored_once_of_single (ordered : Ordered cwd uploads md5 s) (held : Matches md5 s)
    (settled : Settled s)
    (single : ∀ path i j, (phaseOf s i).Wrote path → (phaseOf s j).Wrote path → i = j) :
    StoredOnce md5 s := by
  intro name blocks present
  obtain ⟨d,rfl⟩ := held.named name (by rw [present]; simp)
  obtain ⟨nodup,right,writers⟩ := held.blocks d blocks present
  match blocks with
  | [] =>
    obtain ⟨i,opened⟩ := held.empty d present
    exact absurd opened (not_opened_of_finished ordered (settled i _ (.inl opened)) _)
  | [⟨i,b⟩] =>
    have digest : md5 b = d := right ⟨i,b⟩ (by simp)
    exact ⟨i,b,rfl,by rw [digest]⟩
  | first :: second :: rest =>
    have same := single _ _ _ ((writers first.writer).mp (by simp)) ((writers second.writer).mp (by simp))
    simp [same] at nodup

end steps

section runs
variable {cwd : File} {uploads : Nat → Upload} {md5 : Bytes → Digest} {outputs : Nat → Bytes}
  {store : Store} {run : List Uploads}

theorem run_matches (empty : ∀ name, store.files (inFiledisk name) = none)
    (steps : (Uploads.start md5 uploads outputs store :: run).IsChain (UploadStep cwd uploads)) :
    ∀ s ∈ Uploads.start md5 uploads outputs store :: run,
      Ordered cwd uploads md5 s ∧ Matches md5 s :=
  always_of_kept steps ⟨ordered_start outputs store,matches_start empty⟩
    fun _ _ held step => ⟨ordered_step held.1 step,matches_step held.1 held.2 step⟩

theorem wrote_last {first : Uploads} {i : Nat} {path : Bytes}
    (steps : (first :: run).IsChain (UploadStep cwd uploads)) (ordered : Ordered cwd uploads md5 first)
    (wrote : ∃ s ∈ first :: run, (phaseOf s i).Wrote path) :
    (phaseOf ((first :: run).getLast (List.cons_ne_nil _ _)) i).Wrote path := by
  induction run generalizing first with
  | nil => simpa using wrote
  | cons next run ih =>
    obtain ⟨step,rest⟩ := List.isChain_cons_cons.mp steps
    rw [List.getLast_cons_cons]
    apply ih rest (ordered_step ordered step)
    obtain ⟨s,inside,wrote⟩ := wrote
    rcases List.mem_cons.mp inside with rfl | later
    · exact ⟨next,List.mem_cons_self,wrote_step ordered step wrote⟩
    · exact ⟨s,later,wrote⟩

end runs

section sample

def sampleUploads (i : Nat) : Upload :=
  if i = 0 then sampleUpload (ascii "s1") first_key_short 1
  else sampleUpload (ascii "s2") second_key_short 1

def sampleConcurrent : Uploads := .start sampleMd5 sampleUploads (fun _ => []) sampleStart

def swift (i : Nat) : Responder signature ((Conn × Phase) × Store) := fun w c =>
  (respond [] i ⟨w.1.1,w.2⟩ c).map fun (r,w') => (r,((w'.conn,w.1.2.next ⟨c,r⟩),w'.store))

theorem swift_within (i : Nat) (w : (Conn × Phase) × Store) (c : Call) (r : c.Res)
    (w' : (Conn × Phase) × Store) (sound : w.2.redis.Sound) (answered : swift i w c = some (r,w')) :
    uploading [] (sampleUploads i) i w c r w' ∧ w'.2.redis.Sound := by
  obtain ⟨⟨r,v⟩,answer,same⟩ := Option.map_eq_some_iff.mp answered
  cases same
  have calm := respond_within [] i _ _ _ _ answer
  have allowed : Sys (anyEnv [] (sampleUploads i)) i ⟨w.1.1,w.2⟩ c r v :=
    sys_of_calm (fun _ _ _ _ => trivial) calm
  exact ⟨⟨allowed,rfl⟩,calm_sound sound calm⟩

def finished (s : Uploads) (i : Nat) : Bool :=
  match (s.threads i).1 with
  | .ret _ => true
  | _ => false

theorem sample_run {schedule : List Nat} {s : Uploads} (only : ∀ i ∈ schedule, i < 2)
    (played : sampleConcurrent.play swift schedule = some s)
    (both : finished s 0 = true ∧ finished s 1 = true) :
    ∃ run, (sampleConcurrent :: run).IsChain (UploadStep [] sampleUploads) ∧
      (sampleConcurrent :: run).getLast (List.cons_ne_nil _ _) = s ∧ Settled s := by
  have up (j : Nat) (e : Halt) : (sampleConcurrent.threads j).1 ≠ .throw e := nofun
  obtain ⟨run,steps,ends⟩ := List.exists_isChain_cons_of_relationReflTransGen
    (play_sound (fun s => s.redis.Sound) swift_within up sampleStart_sound played)
  refine ⟨run,steps,ends,fun i path begun => .inl ?_⟩
  have returned (i : Nat) (done : finished s i = true) : (s.threads i).1 = .ret () := by
    unfold finished at done
    split at done
    next same => exact same
    next => cases done
  match i with
  | 0 => exact returned 0 both.1
  | 1 => exact returned 1 both.2
  | i + 2 =>
    have idle : i + 2 ∉ schedule := fun inside => absurd (only _ inside) (by omega)
    unfold phaseOf at begun
    rw [play_other idle played] at begun
    rcases begun with same | same | same <;> cases same

def sampleInTurn : Option Uploads :=
  sampleConcurrent.play swift (List.replicate 31 0 ++ List.replicate 23 1)

/-- The second call runs after the first was told that the content is not there. -/
def sampleAtOnce : Option Uploads :=
  sampleConcurrent.play swift (List.replicate 17 0 ++ List.replicate 31 1 ++ List.replicate 14 0)

end sample

section runs
variable {cwd : File} {uploads : Nat → Upload} {md5 : Bytes → Digest} {outputs : Nat → Bytes}
  {store : Store} {run : List Uploads}

/-- Once every call that came to its `open` has finished: each file under `/home/filedisk` was
written once, by one call, exactly when the calls that wrote one path did so one by one. -/
theorem stored_once_iff (empty : ∀ name, store.files (inFiledisk name) = none)
    (steps : (Uploads.start md5 uploads outputs store :: run).IsChain (UploadStep cwd uploads))
    (settled : Settled ((Uploads.start md5 uploads outputs store :: run).getLast
      (List.cons_ne_nil _ _))) :
    StoredOnce md5 ((Uploads.start md5 uploads outputs store :: run).getLast (List.cons_ne_nil _ _)) ↔
      OneByOne (Uploads.start md5 uploads outputs store :: run) := by
  have held := run_matches empty steps
  have last := List.getLast_mem (List.cons_ne_nil (Uploads.start md5 uploads outputs store) run)
  have start := (held _ List.mem_cons_self).1
  constructor
  · -- Two calls that wrote one path have a block each in its file.
    intro stored path i j different first second
    have first := wrote_last steps start first
    have second := wrote_last steps start second
    obtain ⟨d,rfl⟩ := (held _ last).2.digests i path first
    obtain ⟨blocks,present⟩ := Option.ne_none_iff_exists'.mp fun missing =>
      ((held _ last).2.missing d missing i).2 first
    obtain ⟨k,b,rfl,-⟩ := stored _ _ present
    have writers := ((held _ last).2.blocks d _ present).2.2
    have one := (writers i).mpr first
    have other := (writers j).mpr second
    simp only [List.map_cons,List.map_nil,List.mem_singleton] at one other
    exact absurd (one.trans other.symm) different
  · intro apart
    apply stored_once_of_single (held _ last).1 (held _ last).2 settled
    intro path i j first second
    by_contra different
    have guarded : (Uploads.start md5 uploads outputs store :: run).IsChain fun s s' =>
        (Ordered cwd uploads md5 s ∧ Matches md5 s) ∧
          ¬ ((phaseOf s' i).Pending path ∧ (phaseOf s' j).Pending path) :=
      steps.imp_of_mem_imp fun s s' inside inside' _ =>
        ⟨held s inside,apart path i j different ⟨_,last,first⟩ ⟨_,last,second⟩ s' inside'⟩
    have never := @always_of_guarded _ _ _ (fun s => ¬ (Engaged s i path ∧ Engaged s j path)) _ _ steps
      guarded (by rintro ⟨(same | same | same) | same,-⟩ <;> cases same)
      fun s s' apart step guard => apart_step guard.1.1 guard.1.2 different step apart guard.2
    exact never _ last ⟨engaged_of_wrote first,engaged_of_wrote second⟩

end runs

theorem sample_stored_once_iff : ∃ s run, sampleInTurn = some s ∧
    (sampleConcurrent :: run).IsChain (UploadStep [] sampleUploads) ∧
    (StoredOnce sampleMd5 s ↔ OneByOne (sampleConcurrent :: run)) := by
  obtain ⟨s,played⟩ : ∃ s, sampleInTurn = some s := Option.isSome_iff_exists.mp (by decide +kernel)
  have both : finished s 0 = true ∧ finished s 1 = true := by
    have done : sampleInTurn.map (fun s => (finished s 0,finished s 1)) = some (true,true) := by
      decide +kernel
    rw [played] at done
    exact ⟨congrArg Prod.fst (Option.some.inj done),congrArg Prod.snd (Option.some.inj done)⟩
  obtain ⟨run,steps,ends,settled⟩ := sample_run (by decide) played both
  rw [← ends] at settled
  have single := stored_once_iff (fun _ => rfl) steps settled
  rw [show Uploads.start sampleMd5 sampleUploads (fun _ => []) sampleStart = sampleConcurrent from rfl,
    ends] at single
  exact ⟨s,run,played,steps,single⟩

/-- Both users are told to send the content, and both append it. -/
theorem content_stored_twice : ¬ ∀ (cwd : File) (md5 : Bytes → Digest) (uploads : Nat → Upload)
    (outputs : Nat → Bytes) (store : Store) (run : List Uploads),
    (∀ name, store.files (inFiledisk name) = none) →
    (Uploads.start md5 uploads outputs store :: run).IsChain (UploadStep cwd uploads) →
    Settled ((Uploads.start md5 uploads outputs store :: run).getLast (List.cons_ne_nil _ _)) →
    StoredOnce md5 ((Uploads.start md5 uploads outputs store :: run).getLast (List.cons_ne_nil _ _)) := by
  intro once
  obtain ⟨s,played⟩ : ∃ s, sampleAtOnce = some s := Option.isSome_iff_exists.mp (by decide +kernel)
  have seen : sampleAtOnce.map (fun s => (finished s 0,finished s 1,
      s.shared.files (hashFile sampleDigest))) =
      some (true,true,some [⟨1,ascii "a"⟩,⟨0,ascii "a"⟩]) := by
    decide +kernel
  rw [played] at seen
  obtain ⟨first,rest⟩ := Prod.mk.inj (Option.some.inj seen)
  obtain ⟨second,twice⟩ := Prod.mk.inj rest
  obtain ⟨run,steps,ends,settled⟩ := sample_run (by decide) played ⟨first,second⟩
  rw [← ends] at settled
  have stored := once _ _ _ _ _ run (fun _ => rfl) steps settled
  rw [show Uploads.start sampleMd5 sampleUploads (fun _ => []) sampleStart = sampleConcurrent from rfl,
    ends] at stored
  obtain ⟨_,_,single,_⟩ := stored _ _ twice
  cases single

end FilediskServer.ConcurrentUploads
