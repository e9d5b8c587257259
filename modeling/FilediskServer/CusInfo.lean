import FilediskServer.Library.Bytes

/-! The records of the TCP protocol, as the structs of `CusInfo.h` lie in memory on a
little-endian 64-bit machine. -/
namespace FilediskServer.CusInfo
open Bytes

/-- `unsigned char md5[16]`. -/
abbrev Digest := Fin 16 → UInt8

def Digest.bytes (d : Digest) : Bytes := List.ofFn d

/-- 33 bytes of key, 3 of padding and a 4-byte length. -/
def sizeofDatauuid : Nat := 40

/-- The key as `string(d->uuid)` reads it: the C string that starts the record, which runs
on through padding, length and the memory `beyond` the record while no NUL comes. -/
def uuidOf (buff beyond : Bytes) : Bytes := cstr (buff ++ beyond)

def namelenOf (buff : Bytes) : Int := signed (slice buff 36 4)

@[ext] structure Fileheader where
  dirid : Int
  md5 : Digest
  index : Int
  upload : Bool
  filelen : Int
  deriving DecidableEq

def sizeofFileheader : Nat := 40

/-- `(fileheader *)fheaderinfo`: 8 bytes of padding-free `dirid`, the digest, the index,
the flag with 3 bytes of padding, the length. -/
def Fileheader.read (b : Bytes) : Fileheader where
  dirid := signed (slice b 0 8)
  md5 i := b.getD (8 + i) 0
  index := signed (slice b 24 4)
  upload := b.getD 28 0 != 0
  filelen := signed (slice b 32 8)

/-- The bytes of a header of which all fields but `md5` were assigned; `raw` is what the
memory held before. -/
def Fileheader.assigned (raw : Bytes) (dirid index : Int) (upload : Bool) (filelen : Int) : Bytes :=
  ofInt 8 dirid ++ slice raw 8 16 ++ ofInt 4 index ++ [if upload then 1 else 0] ++
    slice raw 29 3 ++ ofInt 8 filelen

def flagRecord (flag : Bool) : Bytes := [if flag then 1 else 0]

def userValidation (valid : Bool) : Bytes := flagRecord valid
def fileexists (exist : Bool) : Bytes := flagRecord exist
def fileerror (error : Bool) : Bytes := flagRecord error

theorem length_assigned {raw : Bytes} (size : raw.length = 40) (dirid index : Int) (upload : Bool)
    (filelen : Int) : (Fileheader.assigned raw dirid index upload filelen).length = 40 := by
  simp [Fileheader.assigned,slice,size]

theorem filelen_field {raw : Bytes} (size : raw.length = 40) (dirid index : Int) (upload : Bool)
    (filelen : Int) : slice (Fileheader.assigned raw dirid index upload filelen) 32 8 = ofInt 8 filelen := by
  have middle : (slice raw 8 16).length = 16 := by simp [slice,size]
  have padding : (slice raw 29 3).length = 3 := by simp [slice,size]
  unfold Fileheader.assigned
  rw [slice_append_right 32 0 (by simp [middle,padding])]
  simp [slice]

theorem filelen_assigned {raw : Bytes} (size : raw.length = 40) {filelen : Int} (dirid index : Int)
    (upload : Bool) (low : -2 ^ 63 ≤ filelen) (high : filelen < 2 ^ 63) :
    (Fileheader.read (Fileheader.assigned raw dirid index upload filelen)).filelen = filelen :=
  (congrArg signed (filelen_field size dirid index upload filelen)).trans
    (signed_ofInt 7 filelen (by norm_num; omega) (by norm_num; omega))

theorem read_assigned {raw : Bytes} (size : raw.length = 40) {dirid index filelen : Int}
    (upload : Bool) (dirLow : -2 ^ 63 ≤ dirid) (dirHigh : dirid < 2 ^ 63)
    (indexLow : -2 ^ 31 ≤ index) (indexHigh : index < 2 ^ 31)
    (lenLow : -2 ^ 63 ≤ filelen) (lenHigh : filelen < 2 ^ 63) :
    let header := Fileheader.read (Fileheader.assigned raw dirid index upload filelen)
    header.dirid = dirid ∧ header.index = index ∧ header.upload = upload ∧
      header.filelen = filelen := by
  have middle : (slice raw 8 16).length = 16 := by simp [slice,size]
  have first : slice (Fileheader.assigned raw dirid index upload filelen) 0 8 = ofInt 8 dirid := by
    simp [Fileheader.assigned,slice]
  have second : slice (Fileheader.assigned raw dirid index upload filelen) 24 4 = ofInt 4 index := by
    simp only [Fileheader.assigned,List.append_assoc]
    rw [slice_append_right 24 16 (by simp),slice_append_right 16 0 (by simp [middle])]
    simp [slice]
  have third : (Fileheader.assigned raw dirid index upload filelen).getD 28 0 =
      if upload then 1 else 0 := by
    simp [Fileheader.assigned,List.getD_eq_getElem?_getD,List.getElem?_append,middle]
  refine ⟨?_,?_,?_,filelen_assigned size dirid index upload lenLow lenHigh⟩
  · exact (congrArg signed first).trans (signed_ofInt 7 dirid (by norm_num; omega) (by norm_num; omega))
  · exact (congrArg signed second).trans (signed_ofInt 3 index (by norm_num; omega) (by norm_num; omega))
  · simp only [Fileheader.read,third]
    cases upload <;> rfl

/-! What a client writes. -/

def recordOf (uuid : Bytes) (namelen : Int) : Bytes :=
  uuid ++ zeros (36 - uuid.length) ++ ofInt 4 namelen

def Fileheader.bytes (fh : Fileheader) : Bytes :=
  Fileheader.assigned (zeros 8 ++ fh.md5.bytes ++ zeros 16) fh.dirid fh.index fh.upload fh.filelen

theorem length_recordOf {uuid : Bytes} (short : uuid.length ≤ 36) (namelen : Int) :
    (recordOf uuid namelen).length = sizeofDatauuid := by
  simp only [recordOf,List.length_append,length_zeros,length_ofInt,sizeofDatauuid]
  omega

theorem namelenOf_recordOf {uuid : Bytes} (short : uuid.length ≤ 36) {namelen : Int}
    (low : -2 ^ 31 ≤ namelen) (high : namelen < 2 ^ 31) : namelenOf (recordOf uuid namelen) = namelen := by
  have start : 36 = (uuid ++ zeros (36 - uuid.length)).length + 0 := by
    simp only [List.length_append,length_zeros]
    omega
  unfold namelenOf
  rw [recordOf,slice_append_right 36 0 start]
  have field : slice (ofInt 4 namelen) 0 4 = ofInt 4 namelen := by simp [slice]
  rw [field]
  exact signed_ofInt 3 namelen (by norm_num; omega) (by norm_num; omega)

theorem uuidOf_recordOf {uuid : Bytes} (short : uuid.length < 36) (plain : 0 ∉ uuid) (namelen : Int)
    (beyond : Bytes) : uuidOf (recordOf uuid namelen) beyond = uuid := by
  obtain ⟨n,gap⟩ : ∃ n, 36 - uuid.length = n + 1 := ⟨35 - uuid.length,by omega⟩
  unfold uuidOf
  rw [recordOf,gap,List.append_assoc,List.append_assoc,cstr_append_of_plain plain]
  simp [zeros,List.replicate_succ,cstr]

theorem length_bytes (fh : Fileheader) : fh.bytes.length = sizeofFileheader :=
  length_assigned (by simp [Digest.bytes]) _ _ _ _

theorem read_bytes {fh : Fileheader} (dirLow : -2 ^ 63 ≤ fh.dirid) (dirHigh : fh.dirid < 2 ^ 63)
    (indexLow : -2 ^ 31 ≤ fh.index) (indexHigh : fh.index < 2 ^ 31)
    (lenLow : -2 ^ 63 ≤ fh.filelen) (lenHigh : fh.filelen < 2 ^ 63) : Fileheader.read fh.bytes = fh := by
  have size : (zeros 8 ++ fh.md5.bytes ++ zeros 16).length = 40 := by simp [Digest.bytes]
  obtain ⟨dirid,index,upload,filelen⟩ :=
    read_assigned size fh.upload dirLow dirHigh indexLow indexHigh lenLow lenHigh
  have middle : slice (zeros 8 ++ fh.md5.bytes ++ zeros 16) 8 16 = fh.md5.bytes := by
    rw [List.append_assoc,slice_append_right 8 0 (by simp)]
    simp [slice,Digest.bytes]
  have md5 : (Fileheader.read fh.bytes).md5 = fh.md5 := by
    funext i
    have inside : i.val < fh.md5.bytes.length := by simp [Digest.bytes]
    simp only [Fileheader.read,Fileheader.bytes,Fileheader.assigned,middle,
      List.getD_eq_getElem?_getD]
    rw [List.append_assoc,List.append_assoc,List.append_assoc,List.append_assoc,
      List.getElem?_append_right (by simp),length_ofInt,Nat.add_sub_cancel_left,
      List.getElem?_append_left inside,List.getElem?_eq_getElem inside]
    exact List.getElem_ofFn _
  exact Fileheader.ext dirid md5 index upload filelen

end FilediskServer.CusInfo
