import FilediskServer.Library.Extension
import FilediskServer.FileStatements
import FilediskServer.TableRows

/-! The directory of a file, as `process` inserts it and as `getfilelist` asks for it: the same
field of the header, printed as a signed and as an unsigned number. -/
namespace FilediskServer.DirectoryNames
open Interaction Bytes CusInfo Filetree Disk Calls SocketIO FileTask FileTaskRuns UploadHistory Downloads
open SqlText FileStatements TableRows

theorem toUnsigned_eq_iff {x : Int} (high : x < 2 ^ 63) : x = (toUnsigned x).toNat ↔ 0 ≤ x := by
  constructor
  · intro same
    rw [same]
    exact Int.natCast_nonneg _
  · intro positive
    exact (toUnsigned_toNat positive high).symm

/-- What is read from a header is a `long long`. -/
theorem dirid_lt {b : Bytes} (size : b.length = sizeofFileheader) : (Fileheader.read b).dirid < 2 ^ 63 := by
  have length : (slice b 0 8).length = 8 := by
    rw [slice,List.length_take,List.length_drop,size]
    rfl
  have high := signed_lt length
  dsimp only [Fileheader.read]
  omega

section requests
variable {env : Env} {me : Nat} {md5 : Bytes → Digest} {w w' : World} {out : Except Halt Unit} {row : Row}
  {userid : UInt64} {filename : Bytes} {fh : Fileheader}

theorem accepted_fields (accepted : Accepted env w userid filename fh w') :
    fh.dirid < 2 ^ 63 ∧ w'.store.table = w.store.table := by
  cases accepted with
  | mk record session answer low high room named headed =>
    have fits := headed.bound
    refine ⟨dirid_lt ?_,rfl⟩
    exact (length_overlay (by rw [length_zeros]; omega)).trans (length_zeros _)

theorem uploaded_row (done : Uploaded env me md5 fh filename userid w out w') :
    w'.store.table = w.store.table ∨ w'.store.table = w.store.table ++ [newRow fh filename userid] := by
  cases done with
  | notSaved saved => exact .inl (saved_table saved)
  | notAdded saved inserted | added saved inserted =>
    have same := saved_table saved
    cases inserted with
    | done => exact .inr (by rw [same])
    | lost => exact .inl same

theorem downloaded_table (done : Downloaded env fh filename userid w out w') :
    w'.store.table = w.store.table := by
  cases done with
  | noResult | null => rfl
  | files order items sent => exact (sentFiles_keeps sent).2

/-- A row is added for an upload, and has its fields. -/
theorem row_of_request (run : Runs (Sys env me) (process md5) w out w')
    (inserts : w'.store.table = w.store.table ++ [row]) : ∃ fh w₁,
    Accepted env w row.userid row.filepath fh w₁ ∧ fh.upload = true ∧ row = newRow fh row.filepath row.userid := by
  have grown {table : List Row} (same : table = w.store.table) : ¬ table = w.store.table ++ [row] := by
    rw [same]
    simp
  cases process_cases run with
  | refused refused => exact absurd inserts (grown (refused_table refused))
  | download accepted wanted done =>
    exact absurd inserts (grown ((downloaded_table done).trans (accepted_fields accepted).2))
  | upload accepted wanted done =>
    have kept := (accepted_fields accepted).2
    rcases uploaded_row done with same | added
    · exact absurd inserts (grown (same.trans kept))
    · rw [kept,inserts] at added
      obtain rfl := List.singleton_inj.mp (List.append_cancel_left added)
      exact ⟨_,_,accepted,wanted,rfl⟩

end requests

def Selects (table : List Row) (row : Row) : Statement → Prop
  | .selectFiles uid dirid filename => row ∈ selected table uid dirid filename
  | _ => False

/-- Whatever statement a download with the row's directory, user and name comes to selects the row. -/
def FoundAgain (table : List Row) (row : Row) : Prop := ∀ env me fh v q, fh.dirid = row.dirid →
  Comes (Sys env me) (downloadfile fh row.filepath row.userid) v (.query q) → Selects table row q

section found
variable {env : Env} {me : Nat} {v : World} {fh : Fileheader} {filename : Bytes} {userid : UInt64}

theorem comes_select : Comes (Sys env me) (downloadfile fh filename userid) v
    (.query (.selectFiles userid (toUnsigned fh.dirid) filename)) :=
  comes_first (comes_first (comes_here _))

def Asks (userid dirid : UInt64) (filename : Bytes) (c : Call) : Prop :=
  ∀ q, c = .query q → q = .selectFiles userid dirid filename

theorem only_downloadfile :
    Only (Asks userid (toUnsigned fh.dirid) filename) (downloadfile fh filename userid) := by
  refine only_bind (only_getfilelist fun q same => ?_) fun list => only_sendFiles ?_ ?_ ?_ ?_ ?_ ?_ list
  · cases same
    rfl
  all_goals
    intros
    intro q same
    cases same

theorem statement_of_download {q : Statement}
    (comes : Comes (Sys env me) (downloadfile fh filename userid) v (.query q)) :
    q = .selectFiles userid (toUnsigned fh.dirid) filename := by
  have asks : Wp (Sys env me) (fun _ => Asks userid (toUnsigned fh.dirid) filename)
      (downloadfile fh filename userid) (fun _ _ => True) v :=
    wp_only (K := fun _ => True) only_downloadfile trivial (fun _ _ _ _ _ _ _ => trivial) (fun _ _ _ is => is)
      fun _ _ _ => trivial
  obtain ⟨_,asked⟩ := comes_may asks comes
  exact asked q rfl

theorem foundAgain_iff {table : List Row} {row : Row} (inside : row ∈ table) :
    FoundAgain table row ↔ row.dirid = (toUnsigned row.dirid).toNat := by
  have selects : row ∈ selected table row.userid (toUnsigned row.dirid) row.filepath ↔
      row.dirid = (toUnsigned row.dirid).toNat := by
    simp [selected,Row.matchesFile,inside]
  rw [← selects]
  constructor
  · intro found
    exact found (calm []) 0 ⟨row.dirid,fun _ => 0,0,false,0⟩ ⟨⟨[],true,[]⟩,sampleStart⟩ _ rfl comes_select
  · intro chosen env me fh v q same comes
    rw [statement_of_download comes,same]
    exact chosen

end found

/-- The row that is inserted for an upload is selected for a download of the same directory, user and
name exactly if the `dirid` of the header is not negative; both statements are read as they are meant. -/
theorem directory_found_iff {env : Env} {me : Nat} {md5 : Bytes → Digest} {w w' : World}
    {out : Except Halt Unit} {row : Row} (run : Runs (Sys env me) (process md5) w out w')
    (inserts : w'.store.table = w.store.table ++ [row]) (quotes : quote ∉ row.filepath)
    (escapes : backslash ∉ row.filepath) : ∃ fh w₁,
    Accepted env w row.userid row.filepath fh w₁ ∧ fh.upload = true ∧ row = newRow fh row.filepath row.userid ∧
    tokens (Statement.text (.insert row.userid row.filepath fh.index (hashPath fh.md5) fh.dirid fh.filelen)) =
      some (insert row.userid row.filepath fh.index (hashPath fh.md5) fh.dirid fh.filelen) ∧
    tokens (Statement.text (.selectFiles row.userid (toUnsigned fh.dirid) row.filepath)) =
      some (selectFiles row.userid (toUnsigned fh.dirid) row.filepath) ∧
    (FoundAgain w'.store.table row ↔ 0 ≤ fh.dirid) := by
  obtain ⟨fh,w₁,accepted,wanted,same⟩ := row_of_request run inserts
  have carries : carried row.filepath = true := carried_of_free quotes escapes
  have dirid : row.dirid = fh.dirid := by rw [same]; rfl
  refine ⟨fh,w₁,accepted,wanted,same,(insert_text_iff ..).mpr carries,(select_text_iff ..).mpr carries,?_⟩
  rw [foundAgain_iff (by rw [inserts]; simp),dirid]
  exact toUnsigned_eq_iff (accepted_fields accepted).1

section sample

def sampleRow : Row := newRow sampleFirst.fileheader (ascii "f") 1

theorem sample_directory_found : ∃ conn fh w₁,
    Accepted (uploadEnv [] sampleFirst) ⟨conn,sampleStart⟩ 1 (ascii "f") fh w₁ ∧ fh.upload = true ∧
    sampleRow = newRow fh (ascii "f") 1 ∧
    tokens (Statement.text (.insert 1 (ascii "f") fh.index (hashPath fh.md5) fh.dirid fh.filelen)) =
      some (insert 1 (ascii "f") fh.index (hashPath fh.md5) fh.dirid fh.filelen) ∧
    tokens (Statement.text (.selectFiles 1 (toUnsigned fh.dirid) (ascii "f"))) =
      some (selectFiles 1 (toUnsigned fh.dirid) (ascii "f")) ∧
    (FoundAgain sampleStored.table sampleRow ↔ 0 ≤ fh.dirid) := by
  obtain ⟨output,_,_,run⟩ := sampleStored_handled.1
  have inserts : sampleStored.table = sampleStart.table ++ [sampleRow] := by decide +kernel
  exact ⟨_,directory_found_iff run inserts (by decide +kernel) (by decide +kernel)⟩

/-- An upload into the directory to which `DirRm` moves what it removes. -/
def sampleMoved : Upload where
  toRequest := .encode (ascii "s1") (ascii "f") ⟨-2,sampleDigest,1,true,1⟩ (ascii "a") false
    first_key_short name_short
  wanted := by decide +kernel

def sampleRemoved : Store := (handle sampleMd5 [] 0 sampleMoved sampleStart).get (by decide +kernel)

/-- The statement of the download asks for directory 18446744073709551614. -/
theorem negative_directory_missed : ¬ ∀ (env : Env) (me : Nat) (md5 : Bytes → Digest) (w w' : World)
    (out : Except Halt Unit) (row : Row), Runs (Sys env me) (process md5) w out w' →
    w'.store.table = w.store.table ++ [row] → quote ∉ row.filepath → backslash ∉ row.filepath →
    FoundAgain w'.store.table row := by
  intro claim
  obtain ⟨⟨_,_,_,run⟩,-⟩ := handles_of_handle sampleStart_sound
    (show handle sampleMd5 [] 0 sampleMoved sampleStart = some sampleRemoved from (Option.some_get _).symm)
  have inserts : sampleRemoved.table = sampleStart.table ++ [newRow sampleMoved.fileheader (ascii "f") 1] := by
    decide +kernel
  have found := claim _ _ _ _ _ _ _ run inserts (by decide +kernel) (by decide +kernel)
  rw [inserts,foundAgain_iff (by simp)] at found
  exact absurd found (by decide +kernel)

end sample

end FilediskServer.DirectoryNames
