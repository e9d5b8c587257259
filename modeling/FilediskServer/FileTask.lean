import FilediskServer.SocketIO

/-! `FileTask` of the TCP server: one call of `process` reads one request from its
connection and answers it. MD5 is a parameter. -/
namespace FilediskServer.FileTask
open Interaction Bytes CusInfo Redis Filetree Disk Calls SocketIO

/-- A Redis command; redis++ throws the error of a command that fails. -/
def redis (c : Command) : Job c.Reply := do
  match ← ask (.redis c) with
  | .ok reply => pure reply
  | .error e => .throw (.redis e)

/-- `result[name]` of an `unordered_map`, which is empty for a name that is not there. -/
def lookup (fields : List (Bytes × Bytes)) (name : Bytes) : Bytes :=
  ((fields.find? (·.1 == name)).map (·.2)).getD []

/-- `UserValidate::validate`. -/
def validate (uuid : Bytes) : Job (Bool × UInt64) := do
  let result ← redis (.hgetall uuid)
  if result.length ≠ 0 then
    match stoull (lookup result (ascii "userid")) with
    | .ok userid => pure (true,userid)
    | .error e => .throw (.numeral e)
  else pure (false,-1)

def userValidate (valid : Bool) : Job Unit := send (.buf (userValidation valid)) 1

/-- A `long long` passed for an `unsigned long long`, and back. -/
def toUnsigned (x : Int) : UInt64 := UInt64.ofInt x
def toSigned (x : UInt64) : Int := (x.toNat : Int).bmod (2 ^ 64)

/-- One round of the fetch loop; `atoi` and `std::string` do not take NULL. -/
def Cells.item (row : Cells) : Option (Int × Bytes × UInt64) := do
  let index ← row.index
  let filepath ← row.hashfilepath
  let filesize ← row.filesize
  pure (index,filepath,toUnsigned filesize)

theorem mapM_item_cons {c : Cells} {cells : List Cells} {rows : List (Int × Bytes × UInt64)}
    (found : (c :: cells).mapM Cells.item = some rows) :
    ∃ first rest, Cells.item c = some first ∧ cells.mapM Cells.item = some rest ∧ rows = first :: rest := by
  rw [List.mapM_cons] at found
  obtain ⟨first,item,found⟩ := Option.bind_eq_some_iff.mp found
  obtain ⟨rest,others,found⟩ := Option.bind_eq_some_iff.mp found
  exact ⟨first,rest,item,others,(Option.some.inj found).symm⟩

theorem mapM_item_some {cells : List Cells} :
    (∃ rows, cells.mapM Cells.item = some rows) ↔ ∀ c ∈ cells, Cells.item c ≠ none := by
  induction cells with
  | nil => simp
  | cons c cells ih =>
    rw [List.forall_mem_cons,← ih]
    constructor
    · rintro ⟨rows,found⟩
      obtain ⟨first,rest,item,others,-⟩ := mapM_item_cons found
      exact ⟨by simp [item],rest,others⟩
    · rintro ⟨some,rest,others⟩
      obtain ⟨first,item⟩ := Option.ne_none_iff_exists'.mp some
      exact ⟨first :: rest,by simp [item,others]⟩

/-- The one column of a row that may be NULL is the index. -/
theorem item_cells (row : Row) : Cells.item row.cells =
    row.index.map fun index => (index,row.hashfilepath,toUnsigned row.filesize) := by
  unfold Cells.item Row.cells
  cases row.index <;> rfl

theorem rows_fetched {rows : List Row} {cells : List Cells} (order : cells.Perm (rows.map Row.cells)) :
    (∃ list, cells.mapM Cells.item = some list) ↔ ∀ row ∈ rows, row.index ≠ none := by
  rw [mapM_item_some]
  simp [order.mem_iff,item_cells]

def getfilelist (uid dirid : UInt64) (filename : Bytes) : Job (List (Int × Bytes × UInt64)) := do
  match ← ask (.query (.selectFiles uid dirid filename)) with
  | none => .throw .null
  | some res =>
    match res.mapM Cells.item with
    | some filelist => pure filelist
    | none => .throw .null

/-- The loop of `downloadfile`. The file that is opened is the one the client named. -/
def sendFiles (fh : Fileheader) (filename : Bytes) : List (Int × Bytes × UInt64) → Job Unit
  | [] => pure ()
  | (index,_filepath,filesize) :: rest => do
    match ← ask (.openFile filename) with
    | none => pure ()
    | some sfd =>
      let data ← ask (.mmap sfd filesize)
      let raw ← ask (.uninit sizeofFileheader)
      let downfh := Fileheader.assigned raw fh.dirid index false (toSigned filesize)
      send (.buf downfh) sizeofFileheader
      send (.mapped data 0) (toSigned filesize)
      ask (.munmap data)
      ask (.close (some sfd))
      sendFiles fh filename rest

def downloadfile (fh : Fileheader) (filename : Bytes) (userid : UInt64) : Job Unit := do
  let filelist ← getfilelist userid (toUnsigned fh.dirid) filename
  sendFiles fh filename filelist

def isfileexits (filename : Bytes) (userid : UInt64) : Job Bool := do
  let res ← redis (.sismember (decimal userid.toNat) filename)
  if res then pure true
  else
    match ← ask (.query (.countPath filename)) with
    | none => .throw .null
    | some count =>
      -- `stoi` of the count
      if count < 2 ^ 31 then pure (decide (count > 0)) else .throw (.numeral .outOfRange)

section
variable (md5 : Bytes → Digest)

/-- The loop of `savefile`: receive, compare, report an error and receive again. -/
def receiveChecked (fh : Fileheader) (filebuff : Bytes) : Job Bytes :=
  .iter (fun filebuff => do
    let filebuff ← receive filebuff fh.filelen
    if md5 filebuff = fh.md5 then pure (.inr filebuff)
    else
      send (.buf (fileerror true)) 1
      pure (.inl filebuff)) filebuff

def savefile (fh : Fileheader) (userid : UInt64) : Job Bytes := do
  let filename := hashPath fh.md5
  let isexits ← isfileexits filename userid
  send (.buf (fileexists isexits)) 1
  if isexits then pure filename
  else if fh.filelen < 0 then .throw .badAlloc
  else
    match ← ask (.alloc fh.filelen.toNat) with
    | none => .throw .badAlloc
    | some filebuff =>
      let filebuff ← receiveChecked md5 fh filebuff
      let sfd ← ask (.openFile filename)
      ask (.writeFile sfd filebuff)
      ask (.close sfd)
      pure filename

/-- The branch of `process` for an upload. -/
def upload (fh : Fileheader) (filename : Bytes) (userid : UInt64) : Job Unit := do
  let hashfilepath ← savefile md5 fh userid
  let _ ← ask (.query (.insert userid filename fh.index hashfilepath fh.dirid fh.filelen))
  redis (.sadd (decimal userid.toNat) hashfilepath)
  redis (.setex (decimal userid.toNat) (4 * 60 * 60) hashfilepath)

def process : Job Unit := do
  let buff ← receive (zeros sizeofDatauuid) sizeofDatauuid
  let beyond ← ask .beyond
  let (valid,userid) ← validate (uuidOf buff beyond)
  userValidate valid
  if valid then
    let filenamelen := namelenOf buff
    -- `char filename[filenamelen+1]` has no meaning for another bound
    if 0 ≤ filenamelen ∧ filenamelen + 1 < 2 ^ 31 then
      if ← ask (.array (filenamelen + 1).toNat) then
        let filename ← receive (zeros (filenamelen + 1).toNat) filenamelen
        let fheaderinfo ← receive (zeros sizeofFileheader) sizeofFileheader
        let fh := Fileheader.read fheaderinfo
        if fh.upload then upload md5 fh (cstr filename) userid
        else downloadfile fh (cstr filename) userid
      else .throw .stackOverflow
    else .throw .undefined
  else pure ()

end

end FilediskServer.FileTask
