import FilediskServer.Library.Varint
import FilediskServer.Library.MessageCodec

/-! A runtime for the message codec: tags and numbers are varints, strings are behind their length,
and what is unknown is kept in one of four shapes. Groups are refused. -/
namespace WireFormat
open MessageCodec

def varint (n : Nat) : Bytes := Varint.encode 10 n

def readVarint : Bytes → Option (Nat × Bytes) := Varint.decode 10

theorem readVarint_varint {n : Nat} (bound : n < 2 ^ 64) (rest : Bytes) :
    readVarint (varint n ++ rest) = some (n,rest) :=
  Varint.decode_encode (bound.trans (by norm_num)) (by decide) rest

theorem length_varint {n : Nat} (bound : n < 2 ^ 64) : (varint n).length = Varint.size n :=
  Varint.length_encode (bound.trans (by norm_num)) (by decide)

/-- A tag has 32 bits, and 0 stands for the end of the stream too. -/
def readTag (b : Bytes) : Nat × Bytes :=
  match readVarint b with
  | some (n,rest) => (n % 2 ^ 32,rest)
  | none => (0,b)

/-- So many bytes behind the start. -/
def readRaw (n : Nat) (b : Bytes) : Option ({x : Bytes // x.length = n} × Bytes) :=
  if enough : n ≤ b.length then some (⟨b.take n,List.length_take_of_le enough⟩,b.drop n) else none

theorem readRaw_append {n : Nat} (x : {x : Bytes // x.length = n}) (rest : Bytes) :
    readRaw n (x.val ++ rest) = some (x,rest) := by
  obtain ⟨x,rfl⟩ := x
  rw [readRaw,dif_pos (by simp)]
  simp

abbrev Text : Type := {x : Bytes // x.length < 2 ^ 31}

/-- The length is an `int`. -/
def readString (b : Bytes) : Option (Text × Bytes) :=
  match readVarint b with
  | some (n,rest) =>
    if small : n % 2 ^ 32 < 2 ^ 31 then
      (readRaw (n % 2 ^ 32) rest).map fun x => (⟨x.1.val,by rw [x.1.property]; exact small⟩,x.2)
    else none
  | none => none

def writeString (x : Bytes) : Bytes := varint x.length ++ x

theorem readString_writeString (x : Text) (rest : Bytes) :
    readString (writeString x.val ++ rest) = some (x,rest) := by
  obtain ⟨x,small⟩ := x
  have length : x.length % 2 ^ 32 = x.length := Nat.mod_eq_of_lt (by omega)
  have raw := readRaw_append ⟨x,length.symm⟩ rest
  rw [readString,writeString,List.append_assoc,readVarint_varint (small.trans (by norm_num))]
  simp only [raw]
  rw [dif_pos (by omega)]
  rfl

theorem length_writeString (x : Text) :
    (writeString x.val).length = Varint.size x.val.length + x.val.length := by
  rw [writeString,List.length_append,length_varint (x.property.trans (by norm_num))]

inductive Payload
  | varint (value : BitVec 64)
  | fixed64 (bytes : {x : Bytes // x.length = 8})
  | lengthDelimited (bytes : Text)
  | fixed32 (bytes : {x : Bytes // x.length = 4})

namespace Payload

def wireType : Payload → Nat
  | varint _ => 0
  | fixed64 _ => 1
  | lengthDelimited _ => 2
  | fixed32 _ => 5

def write : Payload → Bytes
  | varint value => WireFormat.varint value.toNat
  | fixed64 bytes | fixed32 bytes => bytes.val
  | lengthDelimited bytes => writeString bytes.val

def size : Payload → Nat
  | varint value => Varint.size value.toNat
  | fixed64 _ => 8
  | lengthDelimited bytes => Varint.size bytes.val.length + bytes.val.length
  | fixed32 _ => 4

def read (wireType : Nat) (b : Bytes) : Option (Payload × Bytes) :=
  match wireType with
  | 0 => (readVarint b).map fun x => (varint (BitVec.ofNat 64 x.1),x.2)
  | 1 => (readRaw 8 b).map fun x => (fixed64 x.1,x.2)
  | 2 => (readString b).map fun x => (lengthDelimited x.1,x.2)
  | 5 => (readRaw 4 b).map fun x => (fixed32 x.1,x.2)
  | _ => none

theorem read_write (p : Payload) (rest : Bytes) : read p.wireType (p.write ++ rest) = some (p,rest) := by
  cases p with
  | varint value => simp [read,wireType,write,readVarint_varint value.isLt]
  | fixed64 bytes => simp [read,wireType,write,readRaw_append]
  | lengthDelimited bytes => simp [read,wireType,write,readString_writeString]
  | fixed32 bytes => simp [read,wireType,write,readRaw_append]

theorem length_write (p : Payload) : p.write.length = p.size := by
  cases p with
  | varint value => exact length_varint value.isLt
  | fixed64 bytes => exact bytes.property
  | lengthDelimited bytes => exact length_writeString bytes
  | fixed32 bytes => exact bytes.property

theorem wireType_lt (p : Payload) : p.wireType < 8 := by
  cases p <;> norm_num [wireType]

end Payload

theorem readVarint_shorter {b : Bytes} {x : Nat × Bytes} (read : readVarint b = some x) :
    x.2.length < b.length := Varint.decode_shorter (n := x.1) read

theorem readTag_shorter {b : Bytes} (tagged : (readTag b).1 ≠ 0) : (readTag b).2.length < b.length := by
  cases found : readVarint b with
  | some x =>
    have shorter := readVarint_shorter found
    simpa only [readTag,found] using shorter
  | none => simp [readTag,found] at tagged

theorem readRaw_le {n : Nat} {b : Bytes} {x} (read : readRaw n b = some x) : x.2.length ≤ b.length := by
  unfold readRaw at read
  split_ifs at read
  cases read
  simp

theorem readString_le {b : Bytes} {x} (read : readString b = some x) : x.2.length ≤ b.length := by
  unfold readString at read
  split at read
  next n rest found =>
    split_ifs at read
    obtain ⟨y,raw,rfl⟩ := Option.map_eq_some_iff.mp read
    exact (readRaw_le raw).trans (readVarint_shorter found).le
  next => cases read

theorem Payload.read_le {wireType : Nat} {b : Bytes} {x} (read : Payload.read wireType b = some x) :
    x.2.length ≤ b.length ∧ x.1.wireType = wireType := by
  unfold Payload.read at read
  split at read
  · obtain ⟨y,found,rfl⟩ := Option.map_eq_some_iff.mp read
    exact ⟨(readVarint_shorter found).le,rfl⟩
  · obtain ⟨y,found,rfl⟩ := Option.map_eq_some_iff.mp read
    exact ⟨readRaw_le found,rfl⟩
  · obtain ⟨y,found,rfl⟩ := Option.map_eq_some_iff.mp read
    exact ⟨readString_le found,rfl⟩
  · obtain ⟨y,found,rfl⟩ := Option.map_eq_some_iff.mp read
    exact ⟨readRaw_le found,rfl⟩
  · cases read

/-- A field that is kept without being understood. -/
structure Unknown where
  number : {n : Nat // 0 < n ∧ n < 2 ^ 29}
  payload : Payload

namespace Unknown

def tag (u : Unknown) : Nat := 8 * u.number.val + u.payload.wireType

theorem tag_bounds (u : Unknown) : 0 < u.tag ∧ u.tag < 2 ^ 32 := by
  have low := u.payload.wireType_lt
  obtain ⟨positive,bound⟩ := u.number.property
  unfold tag
  omega

def skip (tag : Nat) (b : Bytes) : Option (Unknown × Bytes) :=
  if number : 0 < tag / 8 ∧ tag / 8 < 2 ^ 29 then
    (Payload.read (tag % 8) b).map fun x => (⟨⟨tag / 8,number⟩,x.1⟩,x.2)
  else none

theorem skip_write (u : Unknown) (rest : Bytes) : skip u.tag (u.payload.write ++ rest) = some (u,rest) := by
  have low := u.payload.wireType_lt
  have number : u.tag / 8 = u.number.val := by unfold tag; omega
  have type : u.tag % 8 = u.payload.wireType := by unfold tag; omega
  have inside := u.number.property
  rw [skip,dif_pos (by rw [number]; exact inside),type,Payload.read_write]
  obtain ⟨⟨n,bound⟩,payload⟩ := u
  simp only [Option.map_some,number]

theorem skip_spec {tag : Nat} {b : Bytes} {x} (skipped : skip tag b = some x) :
    x.2.length ≤ b.length ∧ x.1.tag = tag := by
  unfold skip at skipped
  split_ifs at skipped with number
  obtain ⟨y,found,rfl⟩ := Option.map_eq_some_iff.mp skipped
  obtain ⟨shorter,type⟩ := Payload.read_le found
  refine ⟨shorter,?_⟩
  change 8 * (tag / 8) + y.1.wireType = tag
  omega

end Unknown

def read : (k : Kind) → Bytes → Option (k.Value × Bytes)
  | .int32, b => (readVarint b).map fun x => (BitVec.ofNat 32 x.1,x.2)
  | .int64, b => (readVarint b).map fun x => (BitVec.ofNat 64 x.1,x.2)
  | .string, b => (readString b).map fun x => (x.1.val,x.2)

/-- A negative `int32` is written with 64 bits. -/
def writeValue : {k : Kind} → k.Value → Bytes
  | .int32, v => varint (BitVec.toNat (BitVec.signExtend 64 (v : BitVec 32)))
  | .int64, v => varint (BitVec.toNat (v : BitVec 64))
  | .string, x => writeString x

def sizeValue : {k : Kind} → k.Value → Nat
  | .int32, v => Varint.size (BitVec.toNat (BitVec.signExtend 64 (v : BitVec 32)))
  | .int64, v => Varint.size (BitVec.toNat (v : BitVec 64))
  | .string, x => Varint.size (List.length (α := UInt8) x) + List.length (α := UInt8) x

/-- Well-formed UTF-8, from inside a character: how many bytes it still needs, and the bounds of the
next of them. -/
def utf8From : Nat → UInt8 → UInt8 → Bytes → Bool
  | 0, _, _, [] => true
  | _ + 1, _, _, [] => false
  | 0, _, _, b :: rest =>
    if b < 0x80 then utf8From 0 0 0 rest
    else if 0xC2 ≤ b ∧ b < 0xE0 then utf8From 1 0x80 0xBF rest
    else if b = 0xE0 then utf8From 2 0xA0 0xBF rest
    else if b = 0xED then utf8From 2 0x80 0x9F rest
    else if 0xE0 < b ∧ b < 0xF0 then utf8From 2 0x80 0xBF rest
    else if b = 0xF0 then utf8From 3 0x90 0xBF rest
    else if 0xF0 < b ∧ b < 0xF4 then utf8From 3 0x80 0xBF rest
    else if b = 0xF4 then utf8From 3 0x80 0x8F rest
    else false
  | n + 1, low, high, b :: rest => decide (low ≤ b ∧ b ≤ high) && utf8From n 0x80 0xBF rest

def utf8 : Bytes → Bool := utf8From 0 0 0

def runtime : Runtime where
  Record := Unknown
  tagOf := Unknown.tag
  readTag := readTag
  read := read
  skipField := Unknown.skip
  write k number v := varint (8 * number + k.wireType) ++ writeValue v
  size _ v := sizeValue v
  writeRecord u := varint u.tag ++ u.payload.write
  recordSize u := Varint.size u.tag + u.payload.size
  verifyUtf8 := utf8
  tag_shorter _ tagged := readTag_shorter tagged
  read_le k b x found := by
    cases k with
    | int32 | int64 =>
      obtain ⟨y,number,rfl⟩ := Option.map_eq_some_iff.mp found
      exact (readVarint_shorter number).le
    | string =>
      obtain ⟨y,text,rfl⟩ := Option.map_eq_some_iff.mp found
      exact readString_le text
  skip_le tag b x skipped := (Unknown.skip_spec skipped).1

theorem readTag_varint {n : Nat} (bound : n < 2 ^ 32) (rest : Bytes) : readTag (varint n ++ rest) = (n,rest) := by
  simp only [readTag,readVarint_varint (bound.trans (by norm_num))]
  rw [Nat.mod_eq_of_lt bound]

theorem setWidth_signExtend (v : BitVec 32) : (v.signExtend 64).setWidth 32 = v := by
  ext i inside
  rw [BitVec.getElem_setWidth,BitVec.getLsbD_signExtend,if_pos inside,BitVec.getLsbD_eq_getElem inside]
  simp [inside.trans (show 32 < 64 by decide)]

theorem read_writeValue : ∀ {k : Kind} (v : k.Value) (rest : Bytes), Fits v →
    read k (writeValue v ++ rest) = some (v,rest)
  | .int32, v, rest, _ => by simp [read,writeValue,readVarint_varint (BitVec.isLt _),setWidth_signExtend]
  | .int64, v, rest, _ => by simp [read,writeValue,readVarint_varint (BitVec.isLt _)]
  | .string, x, rest, fits => by simp [read,writeValue,readString_writeString ⟨x,fits⟩]

theorem length_writeValue : ∀ {k : Kind} (v : k.Value), Fits v → (writeValue v).length = sizeValue v
  | .int32, _, _ | .int64, _, _ => length_varint (BitVec.isLt _)
  | .string, x, fits => length_writeString ⟨x,fits⟩

theorem small_tag {number : Nat} (k : Kind) (small : number < 16) : 8 * number + k.wireType < 128 := by
  have := k.wireType_lt
  omega

theorem lawful : runtime.Lawful where
  ended := rfl
  field k number v rest _ small fits := by
    refine ⟨writeValue v ++ rest,?_,read_writeValue v rest fits⟩
    change readTag (varint _ ++ writeValue v ++ rest) = _
    rw [List.append_assoc,readTag_varint ((small_tag k small).trans (by norm_num))]
  record u rest := by
    refine ⟨u.payload.write ++ rest,?_,u.skip_write rest⟩
    change readTag (varint u.tag ++ u.payload.write ++ rest) = _
    rw [List.append_assoc,readTag_varint u.tag_bounds.2]
    rfl
  tagged u := u.tag_bounds.1.ne'
  fits k b x found := by
    cases k with
    | int32 | int64 => trivial
    | string =>
      obtain ⟨y,_,rfl⟩ := Option.map_eq_some_iff.mp found
      exact y.1.property
  skipped tag b x found := (Unknown.skip_spec found).2
  fieldSize k number v _ small fits := by
    change (varint _ ++ writeValue v).length = 1 + sizeValue v
    have tag := small_tag k small
    rw [List.length_append,length_varint (tag.trans (by norm_num)),length_writeValue v fits,Varint.size,
      Nat.log_of_lt tag]
  recordSize u := by
    change (varint u.tag ++ u.payload.write).length = Varint.size u.tag + u.payload.size
    rw [List.length_append,length_varint (u.tag_bounds.2.trans (by norm_num)),u.payload.length_write]

theorem utf8_of_ascii {b : Bytes} (plain : ∀ x ∈ b, x < 0x80) : utf8 b = true := by
  induction b with
  | nil => rfl
  | cons x b ih =>
    rw [utf8,utf8From,if_pos (plain x List.mem_cons_self)]
    exact ih fun y mem => plain y (List.mem_cons_of_mem x mem)

end WireFormat
