import FilediskServer.Library.Bytes

/-! Messages of numbered fields as generated code reads and writes them: a parser that takes the
fields in any order and keeps what it does not know, a writer that leaves out what has its default,
and the merging of one message into another. What the code calls of its runtime is a parameter. -/
namespace MessageCodec

inductive Kind
  | int32
  | int64
  | string
  deriving DecidableEq

namespace Kind

abbrev Value : Kind → Type
  | int32 => BitVec 32
  | int64 => BitVec 64
  | string => Bytes

def default : (k : Kind) → k.Value
  | int32 => (0 : BitVec 32)
  | int64 => (0 : BitVec 64)
  | string => ([] : Bytes)

instance (k : Kind) : DecidableEq k.Value :=
  match k with
  | int32 => inferInstanceAs (DecidableEq (BitVec 32))
  | int64 => inferInstanceAs (DecidableEq (BitVec 64))
  | string => inferInstanceAs (DecidableEq Bytes)

def wireType : Kind → Nat
  | int32 | int64 => 0
  | string => 2

end Kind

/-- An unknown field is skipped into a record. A read takes something off the stream for a tag, and
nothing is ever put back. -/
structure Runtime where
  Record : Type
  tagOf : Record → Nat
  readTag : Bytes → Nat × Bytes
  read : (k : Kind) → Bytes → Option (k.Value × Bytes)
  skipField : Nat → Bytes → Option (Record × Bytes)
  write : (k : Kind) → Nat → k.Value → Bytes
  size : (k : Kind) → k.Value → Nat
  writeRecord : Record → Bytes
  recordSize : Record → Nat
  verifyUtf8 : Bytes → Bool
  tag_shorter : ∀ b, (readTag b).1 ≠ 0 → (readTag b).2.length < b.length
  read_le : ∀ k b x, read k b = some x → x.2.length ≤ b.length
  skip_le : ∀ tag b x, skipField tag b = some x → x.2.length ≤ b.length

/-- A string whose length is an `int`. -/
def Fits : {k : Kind} → k.Value → Prop
  | .int32, _ | .int64, _ => True
  | .string, b => List.length (α := UInt8) b < 2 ^ 31

/-- The documented encoding, as far as it is relied on. -/
structure Runtime.Lawful (R : Runtime) : Prop where
  ended : R.readTag [] = (0,[])
  field : ∀ k number (v : k.Value) rest, 0 < number → number < 16 → Fits v →
    ∃ body, R.readTag (R.write k number v ++ rest) = (8 * number + k.wireType,body) ∧
      R.read k body = some (v,rest)
  record : ∀ r rest, ∃ body, R.readTag (R.writeRecord r ++ rest) = (R.tagOf r,body) ∧
    R.skipField (R.tagOf r) body = some (r,rest)
  tagged : ∀ r, R.tagOf r ≠ 0
  fits : ∀ k b x, R.read k b = some x → Fits x.1
  skipped : ∀ tag b x, R.skipField tag b = some x → R.tagOf x.1 = tag
  fieldSize : ∀ k number (v : k.Value), 0 < number → number < 16 → Fits v →
    (R.write k number v).length = 1 + R.size k v
  recordSize : ∀ r, (R.writeRecord r).length = R.recordSize r

structure Field where
  number : Nat
  kind : Kind

def Field.tag (f : Field) : Nat := 8 * f.number + f.kind.wireType

/-- Fields whose tags take one byte, no two with one number. -/
structure Schema where
  fields : List Field
  small : ∀ f ∈ fields, 0 < f.number ∧ f.number < 16
  apart : (fields.map Field.number).Nodup

abbrev Schema.Index (σ : Schema) : Type := Fin σ.fields.length

def Schema.kind (σ : Schema) (i : σ.Index) : Kind := (σ.fields.get i).kind

def Schema.number (σ : Schema) (i : σ.Index) : Nat := (σ.fields.get i).number

def Schema.tag (σ : Schema) (i : σ.Index) : Nat := (σ.fields.get i).tag

/-- The `switch` on the tag; `none` is `handle_unusual`. -/
def Schema.find (σ : Schema) (tag : Nat) : Option σ.Index :=
  (List.finRange σ.fields.length).find? fun i => σ.tag i == tag

@[ext] structure Message (R : Runtime) (σ : Schema) where
  values : (i : σ.Index) → (σ.kind i).Value
  unknown : List R.Record

section code
variable (R : Runtime) {σ : Schema}

def verified : {k : Kind} → k.Value → Bool
  | .int32, _ | .int64, _ => true
  | .string, b => R.verifyUtf8 b

variable {R}

def Message.set (m : Message R σ) (i : σ.Index) (v : (σ.kind i).Value) : Message R σ :=
  {m with values := Function.update m.values i v}

def clear : Message R σ := ⟨fun i => (σ.kind i).default,[]⟩

/-- One round of the loop, behind the tag. -/
def readField (m : Message R σ) (tag : Nat) (b : Bytes) : Option (Message R σ × Bytes) :=
  match σ.find tag with
  | some i =>
    match R.read (σ.kind i) b with
    | some (v,rest) => if verified R v then some (m.set i v,rest) else none
    | none => none
  | none => (R.skipField tag b).map fun x => ({m with unknown := m.unknown ++ [x.1]},x.2)

theorem readField_le {m : Message R σ} {tag : Nat} {b : Bytes} {x : Message R σ × Bytes}
    (read : readField m tag b = some x) : x.2.length ≤ b.length := by
  unfold readField at read
  split at read
  · split at read
    next v rest found =>
      split_ifs at read
      cases read
      exact R.read_le _ _ _ found
    next => cases read
  · obtain ⟨y,skipped,rfl⟩ := Option.map_eq_some_iff.mp read
    exact R.skip_le _ _ _ skipped

/-- The stream is left as it was before the tag that ended the loop. -/
def mergePartialFromCodedStream (m : Message R σ) (b : Bytes) : Option (Message R σ × Bytes) :=
  if _tagged : (R.readTag b).1 = 0 then some (m,b)
  else
    match _found : readField m (R.readTag b).1 (R.readTag b).2 with
    | some (m',rest) => mergePartialFromCodedStream m' rest
    | none => none
termination_by b.length
decreasing_by exact (readField_le _found).trans_lt (R.tag_shorter b _tagged)

/-- The whole stream is one message. -/
def parse (R : Runtime) (σ : Schema) (b : Bytes) : Option (Message R σ) :=
  match mergePartialFromCodedStream clear b with
  | some (m,[]) => some m
  | _ => none

def writeField (m : Message R σ) (i : σ.Index) : Bytes :=
  if m.values i = (σ.kind i).default then [] else R.write (σ.kind i) (σ.number i) (m.values i)

/-- `preserve` is `GetProto3PreserveUnknownsDefault`. -/
def serialize (preserve : Bool) (m : Message R σ) : Bytes :=
  (List.finRange σ.fields.length).flatMap (writeField m) ++
    if preserve then m.unknown.flatMap R.writeRecord else []

def fieldSize (m : Message R σ) (i : σ.Index) : Nat :=
  if m.values i = (σ.kind i).default then 0 else 1 + R.size (σ.kind i) (m.values i)

def byteSizeLong (preserve : Bool) (m : Message R σ) : Nat :=
  (if preserve then (m.unknown.map R.recordSize).sum else 0) +
    ((List.finRange σ.fields.length).map (fieldSize m)).sum

def mergeFrom (m source : Message R σ) : Message R σ where
  values i := if source.values i = (σ.kind i).default then m.values i else source.values i
  unknown := m.unknown ++ source.unknown

/-- What can be sent: no string too long, and nothing kept as unknown that is a field of the message. -/
structure Message.Sendable (m : Message R σ) : Prop where
  fits : ∀ i, Fits (m.values i)
  foreign : ∀ r ∈ m.unknown, σ.find (R.tagOf r) = none

/-- The check the parser makes of what is written of a field. -/
def Message.Readable (m : Message R σ) (i : σ.Index) : Prop :=
  m.values i = (σ.kind i).default ∨ verified R (m.values i) = true

instance (m : Message R σ) (i : σ.Index) : Decidable (m.Readable i) := inferInstanceAs (Decidable (_ ∨ _))

def Message.kept (preserve : Bool) (m : Message R σ) : Message R σ :=
  {m with unknown := if preserve then m.unknown else []}

/-- What one written field does to a message. -/
def mergeField (source m : Message R σ) (i : σ.Index) : Message R σ :=
  if source.values i = (σ.kind i).default then m else m.set i (source.values i)

end code

section schema
variable {σ : Schema}

theorem Schema.tag_eq (σ : Schema) (i : σ.Index) : σ.tag i = 8 * σ.number i + (σ.kind i).wireType := rfl

theorem Schema.small_number (σ : Schema) (i : σ.Index) : 0 < σ.number i ∧ σ.number i < 16 :=
  σ.small _ (List.get_mem _ i)

theorem Kind.wireType_lt (k : Kind) : k.wireType < 8 := by cases k <;> decide

theorem Schema.tag_injective (σ : Schema) : Function.Injective σ.tag := by
  intro i j same
  rw [σ.tag_eq,σ.tag_eq] at same
  have hi := (σ.kind i).wireType_lt
  have hj := (σ.kind j).wireType_lt
  have numbers : σ.number i = σ.number j := by omega
  have apart := σ.apart
  rw [List.nodup_iff_injective_get] at apart
  have positions := @apart (i.cast (List.length_map _).symm) (j.cast (List.length_map _).symm)
    (by simpa [Schema.number] using numbers)
  simpa [Fin.ext_iff] using positions

theorem Schema.tag_of_find {tag : Nat} {i : σ.Index} (found : σ.find tag = some i) : σ.tag i = tag := by
  have same := List.find?_some found
  exact eq_of_beq same

theorem Schema.find_tag (σ : Schema) (i : σ.Index) : σ.find (σ.tag i) = some i := by
  have found : (σ.find (σ.tag i)).isSome := List.find?_isSome.mpr ⟨i,List.mem_finRange i,beq_self_eq_true _⟩
  obtain ⟨j,at'⟩ := Option.isSome_iff_exists.mp found
  rw [at',σ.tag_injective (Schema.tag_of_find at')]

theorem Schema.tag_pos (σ : Schema) (i : σ.Index) : σ.tag i ≠ 0 := by
  have := (σ.small_number i).1
  rw [σ.tag_eq]
  omega

end schema

section reading
variable {R : Runtime} {σ : Schema}

theorem mergePartial_step {m m' : Message R σ} {b rest : Bytes} (tagged : (R.readTag b).1 ≠ 0)
    (read : readField m (R.readTag b).1 (R.readTag b).2 = some (m',rest)) :
    mergePartialFromCodedStream m b = mergePartialFromCodedStream m' rest := by
  rw [mergePartialFromCodedStream,dif_neg tagged]
  split
  next found => cases found.symm.trans read; rfl
  next found => cases found.symm.trans read

theorem mergePartial_fail {m : Message R σ} {b : Bytes} (tagged : (R.readTag b).1 ≠ 0)
    (read : readField m (R.readTag b).1 (R.readTag b).2 = none) : mergePartialFromCodedStream m b = none := by
  rw [mergePartialFromCodedStream,dif_neg tagged]
  split
  next found => cases found.symm.trans read
  next => rfl

theorem parse_of_merge {m : Message R σ} {b : Bytes}
    (read : mergePartialFromCodedStream clear b = some (m,[])) : parse R σ b = some m := by
  rw [parse,read]

variable (lawful : R.Lawful)
include lawful

theorem mergePartial_nil (m : Message R σ) : mergePartialFromCodedStream m [] = some (m,[]) := by
  rw [mergePartialFromCodedStream,dif_pos (by rw [lawful.ended])]

theorem mergePartial_writeField (m : Message R σ) {source : Message R σ} (i : σ.Index)
    (fits : Fits (source.values i)) (rest : Bytes) :
    mergePartialFromCodedStream m (writeField source i ++ rest) =
      if source.Readable i then mergePartialFromCodedStream (mergeField source m i) rest else none := by
  unfold writeField mergeField
  by_cases blank : source.values i = (σ.kind i).default
  · have readable : source.Readable i := .inl blank
    rw [if_pos blank,if_pos blank,if_pos readable,List.nil_append]
  · obtain ⟨body,tag,read⟩ := lawful.field (σ.kind i) (σ.number i) (source.values i) rest
      (σ.small_number i).1 (σ.small_number i).2 fits
    rw [if_neg blank,if_neg blank]
    rw [← σ.tag_eq] at tag
    set b := R.write (σ.kind i) (σ.number i) (source.values i) ++ rest
    have tagged : (R.readTag b).1 ≠ 0 := by rw [tag]; exact σ.tag_pos i
    have round : readField m (R.readTag b).1 (R.readTag b).2 =
        if verified R (source.values i) then some (m.set i (source.values i),rest) else none := by
      rw [tag,readField,σ.find_tag]
      simp only [read]
    by_cases valid : verified R (source.values i) = true
    · have readable : source.Readable i := .inr valid
      rw [if_pos readable,mergePartial_step tagged (by rw [round,if_pos valid])]
    · have unreadable : ¬ source.Readable i := not_or.mpr ⟨blank,valid⟩
      rw [if_neg unreadable,mergePartial_fail tagged (by rw [round,if_neg valid])]

theorem mergePartial_writeRecord (m : Message R σ) {r : R.Record} (foreign : σ.find (R.tagOf r) = none)
    (rest : Bytes) : mergePartialFromCodedStream m (R.writeRecord r ++ rest) =
      mergePartialFromCodedStream {m with unknown := m.unknown ++ [r]} rest := by
  obtain ⟨body,tag,skipped⟩ := lawful.record r rest
  refine mergePartial_step (by rw [tag]; exact lawful.tagged r) ?_
  rw [tag,readField,foreign]
  simp only [skipped,Option.map_some]

theorem mergePartial_records (m : Message R σ) {records : List R.Record}
    (foreign : ∀ r ∈ records, σ.find (R.tagOf r) = none) (rest : Bytes) :
    mergePartialFromCodedStream m (records.flatMap R.writeRecord ++ rest) =
      mergePartialFromCodedStream {m with unknown := m.unknown ++ records} rest := by
  induction records generalizing m with
  | nil => simp
  | cons r records ih =>
    rw [List.flatMap_cons,List.append_assoc,
      mergePartial_writeRecord lawful m (foreign r List.mem_cons_self),
      ih _ fun s mem => foreign s (List.mem_cons_of_mem _ mem)]
    simp

theorem mergePartial_fields (m : Message R σ) {source : Message R σ} (fits : ∀ i, Fits (source.values i))
    (indices : List σ.Index) (rest : Bytes) :
    mergePartialFromCodedStream m (indices.flatMap (writeField source) ++ rest) =
      if ∀ i ∈ indices, source.Readable i then
        mergePartialFromCodedStream (indices.foldl (mergeField source) m) rest
      else none := by
  induction indices generalizing m with
  | nil => simp
  | cons i indices ih =>
    rw [List.flatMap_cons,List.append_assoc,mergePartial_writeField lawful m i (fits i)]
    by_cases readable : source.Readable i
    · rw [if_pos readable,ih]
      simp [readable]
    · rw [if_neg readable,if_neg fun all => readable (all i List.mem_cons_self)]

omit lawful in
theorem foldl_mergeField_unknown (m source : Message R σ) (indices : List σ.Index) :
    (indices.foldl (mergeField source) m).unknown = m.unknown := by
  induction indices generalizing m with
  | nil => rfl
  | cons i indices ih =>
    rw [List.foldl_cons,ih,mergeField]
    split_ifs <;> rfl

omit lawful in
theorem foldl_mergeField_values (m source : Message R σ) (indices : List σ.Index) (i : σ.Index) :
    (indices.foldl (mergeField source) m).values i =
      if i ∈ indices ∧ source.values i ≠ (σ.kind i).default then source.values i else m.values i := by
  induction indices generalizing m with
  | nil => simp
  | cons j indices ih =>
    rw [List.foldl_cons,ih,mergeField]
    by_cases same : i = j
    · subst same
      by_cases blank : source.values i = (σ.kind i).default <;> simp [blank,Message.set]
    · by_cases blank : source.values j = (σ.kind j).default <;> simp [blank,Message.set,same]

omit lawful in
theorem foldl_mergeField (m source : Message R σ) :
    (List.finRange σ.fields.length).foldl (mergeField source) m =
      {mergeFrom m source with unknown := m.unknown} := by
  apply Message.ext
  · funext i
    rw [foldl_mergeField_values]
    by_cases blank : source.values i = (σ.kind i).default <;> simp [blank,mergeFrom]
  · exact foldl_mergeField_unknown m source _

theorem mergePartial_serialize (preserve : Bool) (m : Message R σ) {source : Message R σ}
    (sendable : source.Sendable) (rest : Bytes) :
    mergePartialFromCodedStream m (serialize preserve source ++ rest) =
      if ∀ i, source.Readable i then mergePartialFromCodedStream (mergeFrom m (source.kept preserve)) rest
      else none := by
  have every : (∀ i ∈ List.finRange σ.fields.length, source.Readable i) ↔ ∀ i, source.Readable i := by simp
  rw [serialize,List.append_assoc,mergePartial_fields lawful m sendable.fits]
  simp only [every,foldl_mergeField]
  congr 1
  cases preserve with
  | false => simp [mergeFrom,Message.kept]
  | true =>
    rw [if_pos rfl,mergePartial_records lawful _ sendable.foreign]
    rfl

theorem mergePartial_serializeAll (preserve : Bool) (m : Message R σ) {sources : List (Message R σ)}
    (sendable : ∀ source ∈ sources, source.Sendable) :
    mergePartialFromCodedStream m (sources.flatMap (serialize preserve)) =
      if ∀ source ∈ sources, ∀ i, source.Readable i then
        some ((sources.map (Message.kept preserve)).foldl mergeFrom m,[])
      else none := by
  induction sources generalizing m with
  | nil => simp [mergePartial_nil lawful]
  | cons source sources ih =>
    rw [List.flatMap_cons,mergePartial_serialize lawful preserve m (sendable _ List.mem_cons_self)]
    by_cases readable : ∀ i, source.Readable i
    · rw [if_pos readable,ih _ fun other mem => sendable other (List.mem_cons_of_mem _ mem)]
      simp [readable]
    · rw [if_neg readable,if_neg fun all => readable (all source List.mem_cons_self)]

theorem parse_serializeAll (preserve : Bool) {sources : List (Message R σ)}
    (sendable : ∀ source ∈ sources, source.Sendable) :
    parse R σ (sources.flatMap (serialize preserve)) =
      if ∀ source ∈ sources, ∀ i, source.Readable i then
        some ((sources.map (Message.kept preserve)).foldl mergeFrom clear)
      else none := by
  rw [parse,mergePartial_serializeAll lawful preserve clear sendable]
  by_cases readable : ∀ source ∈ sources, ∀ i, source.Readable i
  · rw [if_pos readable,if_pos readable]
  · rw [if_neg readable,if_neg readable]

omit lawful in
/-- Of the messages that set a field the last decides. -/
theorem foldl_mergeFrom_values (m : Message R σ) (sources : List (Message R σ)) (i : σ.Index) :
    (sources.foldl mergeFrom m).values i =
      ((sources.map (·.values i)).filter (· ≠ (σ.kind i).default)).getLastD (m.values i) := by
  induction sources generalizing m with
  | nil => rfl
  | cons source sources ih =>
    have one : (mergeFrom m source).values i =
        if source.values i = (σ.kind i).default then m.values i else source.values i := rfl
    rw [List.foldl_cons,ih,List.map_cons,one]
    by_cases blank : source.values i = (σ.kind i).default
    · rw [List.filter_cons_of_neg (by simpa using blank),if_pos blank]
    · rw [List.filter_cons_of_pos (by simpa using blank),if_neg blank,List.getLastD_cons]

omit lawful in
theorem foldl_mergeFrom_unknown (m : Message R σ) (sources : List (Message R σ)) :
    (sources.foldl mergeFrom m).unknown = m.unknown ++ sources.flatMap Message.unknown := by
  induction sources generalizing m with
  | nil => simp
  | cons source sources ih => rw [List.foldl_cons,ih,mergeFrom,List.flatMap_cons,List.append_assoc]

omit lawful in
theorem clear_mergeFrom (m : Message R σ) : mergeFrom clear m = m := by
  apply Message.ext
  · funext i
    by_cases blank : m.values i = (σ.kind i).default <;> simp [blank,mergeFrom,clear]
  · rfl

theorem parse_serialize (preserve : Bool) {m : Message R σ} (sendable : m.Sendable) :
    parse R σ (serialize preserve m) = if ∀ i, m.Readable i then some (m.kept preserve) else none := by
  have each : ∀ source ∈ [m], source.Sendable := by simpa using sendable
  have one := parse_serializeAll lawful preserve each
  simpa [clear_mergeFrom] using one

theorem length_serialize (preserve : Bool) {m : Message R σ} (sendable : m.Sendable) :
    (serialize preserve m).length = byteSizeLong preserve m := by
  have field : ∀ i, (writeField m i).length = fieldSize m i := by
    intro i
    unfold writeField fieldSize
    split_ifs with blank
    · rfl
    · exact lawful.fieldSize _ _ _ (σ.small_number i).1 (σ.small_number i).2 (sendable.fits i)
  have record : ∀ records : List R.Record,
      (records.flatMap R.writeRecord).length = (records.map R.recordSize).sum := by
    intro records
    rw [List.length_flatMap]
    exact congrArg List.sum (List.map_congr_left fun r _ => lawful.recordSize r)
  rw [serialize,byteSizeLong,List.length_append,List.length_flatMap,Nat.add_comm]
  congr 1
  · cases preserve with
    | false => rfl
    | true => exact record m.unknown
  · exact congrArg List.sum (List.map_congr_left fun i _ => field i)

/-- What the parser leaves in a message it accepts. -/
structure Message.Accepted (m : Message R σ) : Prop extends m.Sendable where
  readable : ∀ i, m.Readable i

omit lawful in
theorem accepted_clear : (clear : Message R σ).Accepted where
  fits i := by
    change Fits (σ.kind i).default
    cases σ.kind i <;> simp [Kind.default,Fits]
  foreign := by simp [clear]
  readable i := .inl rfl

theorem readField_accepted {m : Message R σ} {tag : Nat} {b : Bytes} {x : Message R σ × Bytes}
    (accepted : m.Accepted) (read : readField m tag b = some x) : x.1.Accepted := by
  unfold readField at read
  split at read
  next i found =>
    split at read
    next v rest value =>
      split_ifs at read with valid
      cases read
      have frame : ∀ j, j ≠ i → (m.set i v).values j = m.values j := fun j other => by simp [Message.set,other]
      have this : (m.set i v).values i = v := by simp [Message.set]
      refine ⟨⟨fun j => ?_,accepted.foreign⟩,fun j => ?_⟩ <;> by_cases same : j = i
      · subst same
        rw [this]
        exact lawful.fits _ _ _ value
      · rw [frame j same]
        exact accepted.fits j
      · subst same
        exact .inr (by rw [this]; exact valid)
      · unfold Message.Readable
        rw [frame j same]
        exact accepted.readable j
    next => cases read
  next unfound =>
    obtain ⟨y,skipped,rfl⟩ := Option.map_eq_some_iff.mp read
    refine ⟨⟨accepted.fits,fun r mem => ?_⟩,accepted.readable⟩
    obtain old | new := List.mem_append.mp mem
    · exact accepted.foreign r old
    · rw [List.mem_singleton.mp new,lawful.skipped _ _ _ skipped,unfound]

theorem mergePartial_accepted {m : Message R σ} {b : Bytes} {x : Message R σ × Bytes} (accepted : m.Accepted)
    (read : mergePartialFromCodedStream m b = some x) : x.1.Accepted := by
  fun_induction mergePartialFromCodedStream m b with
  | case1 m b => cases read; exact accepted
  | case2 m b tagged m' rest found ih => exact ih (readField_accepted lawful accepted found) read
  | case3 => cases read

theorem parse_accepted {m : Message R σ} {b : Bytes} (read : parse R σ b = some m) : m.Accepted := by
  unfold parse at read
  split at read
  next found =>
    cases read
    exact mergePartial_accepted lawful accepted_clear found
  next => cases read

end reading

end MessageCodec
