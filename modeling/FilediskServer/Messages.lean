import FilediskServer.Library.WireFormat

/-! The messages of the RPC services, as `FileManager.pb.cc` and `UserSign.pb.cc` write, read and
merge them. -/
namespace FilediskServer.Messages
open MessageCodec

inductive MessageType
  | dirInfo
  | dirRet
  | userSign
  | userRet
  deriving DecidableEq

/-- The numbers and types of the fields. -/
abbrev DirInfo : Schema := ⟨[⟨1,.int64⟩,⟨2,.string⟩,⟨3,.string⟩],by decide,by decide⟩

abbrev DirRet : Schema := ⟨[⟨1,.int32⟩,⟨2,.string⟩],by decide,by decide⟩

abbrev UserSign : Schema := ⟨[⟨1,.string⟩,⟨2,.string⟩,⟨3,.string⟩],by decide,by decide⟩

abbrev UserRet : Schema := ⟨[⟨1,.int32⟩,⟨2,.string⟩,⟨3,.string⟩],by decide,by decide⟩

abbrev MessageType.schema : MessageType → Schema
  | dirInfo => DirInfo
  | dirRet => DirRet
  | userSign => UserSign
  | userRet => UserRet

section fields
variable {R : Runtime}

abbrev first : Fin 3 := ⟨0,by decide⟩

abbrev second : Fin 3 := ⟨1,by decide⟩

abbrev third : Fin 3 := ⟨2,by decide⟩

def DirInfo.dirid (m : Message R DirInfo) : BitVec 64 := m.values first

def DirInfo.name (m : Message R DirInfo) : Bytes := m.values second

def DirInfo.uuid (m : Message R DirInfo) : Bytes := m.values third

def DirInfo.setDirid (m : Message R DirInfo) (value : BitVec 64) : Message R DirInfo := m.set first value

def DirInfo.setName (m : Message R DirInfo) (value : Bytes) : Message R DirInfo := m.set second value

def DirInfo.setUuid (m : Message R DirInfo) (value : Bytes) : Message R DirInfo := m.set third value

def UserRet.code (m : Message R UserRet) : BitVec 32 := m.values first

def UserRet.msg (m : Message R UserRet) : Bytes := m.values second

def UserRet.uuid (m : Message R UserRet) : Bytes := m.values third

def UserRet.setCode (m : Message R UserRet) (value : BitVec 32) : Message R UserRet := m.set first value

def UserRet.setMsg (m : Message R UserRet) (value : Bytes) : Message R UserRet := m.set second value

def UserRet.setUuid (m : Message R UserRet) (value : Bytes) : Message R UserRet := m.set third value

/-- What a string field has to be for the message to arrive. -/
def Arrives (R : Runtime) (text : Bytes) : Prop := text = [] ∨ R.verifyUtf8 text = true

instance (R : Runtime) (text : Bytes) : Decidable (Arrives R text) := inferInstanceAs (Decidable (_ ∨ _))

theorem DirInfo.sendable {m : Message R DirInfo} (name : (DirInfo.name m).length < 2 ^ 31)
    (uuid : (DirInfo.uuid m).length < 2 ^ 31) (known : m.unknown = []) : m.Sendable where
  fits := Fin.forall_fin_succ.mpr ⟨trivial,Fin.forall_fin_two.mpr ⟨name,uuid⟩⟩
  foreign := by simp [known]

theorem DirInfo.readable (m : Message R DirInfo) :
    (∀ i, m.Readable i) ↔ Arrives R (DirInfo.name m) ∧ Arrives R (DirInfo.uuid m) := by
  constructor
  · exact fun all => ⟨all second,all third⟩
  · rintro ⟨name,uuid⟩
    exact Fin.forall_fin_succ.mpr ⟨.inr rfl,Fin.forall_fin_two.mpr ⟨name,uuid⟩⟩

theorem UserRet.sendable {m : Message R UserRet} (msg : (UserRet.msg m).length < 2 ^ 31)
    (uuid : (UserRet.uuid m).length < 2 ^ 31) (known : m.unknown = []) : m.Sendable where
  fits := Fin.forall_fin_succ.mpr ⟨trivial,Fin.forall_fin_two.mpr ⟨msg,uuid⟩⟩
  foreign := by simp [known]

theorem UserRet.readable (m : Message R UserRet) :
    (∀ i, m.Readable i) ↔ Arrives R (UserRet.msg m) ∧ Arrives R (UserRet.uuid m) := by
  constructor
  · exact fun all => ⟨all second,all third⟩
  · rintro ⟨msg,uuid⟩
    exact Fin.forall_fin_succ.mpr ⟨.inr rfl,Fin.forall_fin_two.mpr ⟨msg,uuid⟩⟩

end fields

section wire
variable {R : Runtime} (lawful : R.Lawful) (t : MessageType)
include lawful

/-- Messages one behind the other read as one message, in which the last setting of each field
counts, exactly when their strings are well-formed. -/
theorem parse_sequence (preserve : Bool) (sources : List (Message R t.schema))
    (sendable : ∀ source ∈ sources, source.Sendable) :
    parse R t.schema (sources.flatMap (serialize preserve)) =
      (if ∀ source ∈ sources, ∀ i, source.Readable i then
        some ⟨fun i => ((sources.map (·.values i)).filter (· ≠ (t.schema.kind i).default)).getLastD
            (t.schema.kind i).default,
          if preserve then sources.flatMap Message.unknown else []⟩
      else none) ∧
    (sources.flatMap (serialize preserve)).length = (sources.map (byteSizeLong preserve)).sum := by
  constructor
  · rw [parse_serializeAll lawful preserve sendable]
    congr 2
    apply Message.ext
    · funext i
      rw [foldl_mergeFrom_values,List.map_map]
      rfl
    · rw [foldl_mergeFrom_unknown,List.flatMap_map]
      cases preserve
      · simp [clear,Message.kept]
      · rfl
  · rw [List.length_flatMap]
    exact congrArg List.sum (List.map_congr_left fun source mem =>
      length_serialize lawful preserve (sendable source mem))

/-- Whatever bytes are accepted, what is written back is accepted as the same message, and has the
length that is announced for it. -/
theorem parse_normalises {b : Bytes} {m : Message R t.schema} (read : parse R t.schema b = some m)
    (preserve : Bool) : parse R t.schema (serialize preserve m) = some (m.kept preserve) ∧
      (serialize preserve m).length = byteSizeLong preserve m ∧
      (∀ r ∈ m.unknown, ∀ i, R.tagOf r ≠ t.schema.tag i) := by
  have accepted := parse_accepted lawful read
  refine ⟨?_,length_serialize lawful preserve accepted.toSendable,fun r mem i same => ?_⟩
  · rw [parse_serialize lawful preserve accepted.toSendable,if_pos accepted.readable]
  · have unfound := accepted.foreign r mem
    rw [same,Schema.find_tag] at unfound
    cases unfound

end wire

def sampleInfo (dirid : BitVec 64) (name : Bytes) : Message WireFormat.runtime DirInfo :=
  DirInfo.setName (DirInfo.setDirid clear dirid) name

theorem sample_parse_sequence : (parse WireFormat.runtime DirInfo
    ([sampleInfo 300 (Bytes.ascii "a"),sampleInfo 0 (Bytes.ascii "b")].flatMap (serialize true))).map
      (fun m => (DirInfo.dirid m,DirInfo.name m)) = some (300,Bytes.ascii "b") := by
  have read := (parse_sequence WireFormat.lawful .dirInfo true
    [sampleInfo 300 (Bytes.ascii "a"),sampleInfo 0 (Bytes.ascii "b")] (by
      rintro _ (_ | ⟨_,_ | ⟨_,⟨⟩⟩⟩)
      · exact DirInfo.sendable (by decide) (by decide) rfl
      · exact DirInfo.sendable (by decide) (by decide) rfl)).1
  rw [read,if_pos]
  · rfl
  · rintro _ (_ | ⟨_,_ | ⟨_,⟨⟩⟩⟩)
    · exact (DirInfo.readable _).mpr (by decide +kernel)
    · exact (DirInfo.readable _).mpr (by decide +kernel)

/-- The fields are out of order, and the last is none of the message's. -/
theorem sample_parse_normalises : ∃ m, parse WireFormat.runtime DirInfo [18,1,97,8,172,2,32,5] = some m ∧
    parse WireFormat.runtime DirInfo (serialize true m) = some m := by
  have name : mergePartialFromCodedStream (clear : Message WireFormat.runtime DirInfo) [18,1,97,8,172,2,32,5] =
      mergePartialFromCodedStream (DirInfo.setName clear [97]) [8,172,2,32,5] :=
    mergePartial_step (by decide) rfl
  have dirid : mergePartialFromCodedStream (DirInfo.setName (clear : Message WireFormat.runtime DirInfo) [97])
      [8,172,2,32,5] = mergePartialFromCodedStream (DirInfo.setDirid (DirInfo.setName clear [97]) 300) [32,5] :=
    mergePartial_step (by decide) rfl
  have foreign : mergePartialFromCodedStream (DirInfo.setDirid
      (DirInfo.setName (clear : Message WireFormat.runtime DirInfo) [97]) 300) [32,5] = some (_,[]) :=
    (mergePartial_step (by decide) rfl).trans (mergePartial_nil WireFormat.lawful _)
  have read := parse_of_merge (name.trans (dirid.trans foreign))
  exact ⟨_,read,(parse_normalises WireFormat.lawful .dirInfo read true).1⟩

end FilediskServer.Messages
