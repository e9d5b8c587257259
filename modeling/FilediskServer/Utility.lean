import FilediskServer.CusInfo
import FilediskServer.Redis

/-! The login service's `Utility`: the session it stores for a user, the form of the session
keys it hands out, and which of these keys the record of the TCP protocol can carry. -/
namespace FilediskServer.Utility
open Bytes CusInfo Redis

/-- `redis_session_task`; the reply is dropped. -/
def redisSessionTask (uuid : Bytes) (userid : UInt64) (username : Bytes) : Command :=
  .hmset uuid [(ascii "username",username),(ascii "userid",decimal userid.toNat)]

/-- `charset` of `gen_salt`, with the terminator that `sizeof` counts. -/
def charset : Bytes := ascii "ashdfdfisdlfdmfdk112fvn2vjdsdsjdjvjdaodsaowofdfdspq1232" ++ [0]

/-- `gen_salt`, by what `rand` returns. -/
def genSalt (rand : Fin 16 → Nat) : Bytes := List.ofFn fun i => charset.getD (rand i % charset.length) 0

theorem length_genSalt (rand : Fin 16 → Nat) : (genSalt rand).length = 16 := List.length_ofFn

theorem mem_charset_of_genSalt {rand : Fin 16 → Nat} {b : UInt8} (inside : b ∈ genSalt rand) :
    b ∈ charset := by
  obtain ⟨i,rfl⟩ := List.mem_ofFn.mp inside
  have bound : rand i % charset.length < charset.length := Nat.mod_lt _ (by decide)
  rw [List.getD_eq_getElem?_getD,List.getElem?_eq_getElem bound,Option.getD_some]
  exact List.getElem_mem bound

def dash : UInt8 := 45

/-- What `gen_uuid` returns: 32 lower-case hexadecimal digits in groups of 8, 4, 4, 4 and 12
with a dash between two groups. -/
structure UuidText (u : Bytes) : Prop where
  length : u.length = 36
  digits : ∀ i, (inside : i < u.length) →
    if i = 8 ∨ i = 13 ∨ i = 18 ∨ i = 23 then u[i] = dash else isHexDigit u[i] = true

theorem uuidText_plain {u : Bytes} (text : UuidText u) : 0 ∉ u := by
  intro member
  obtain ⟨i,inside,zero⟩ := List.mem_iff_getElem.mp member
  have digit := text.digits i inside
  rw [zero] at digit
  split_ifs at digit
  · exact absurd digit (by decide)
  · exact absurd digit (by decide)

theorem cstr_full_key {u rest : Bytes} (text : UuidText u) :
    cstr (u ++ rest) = u ↔ rest.head? = none ∨ rest.head? = some 0 := by
  rw [cstr_append_of_plain (uuidText_plain text)]
  cases rest with
  | nil => simp [cstr]
  | cons b rest =>
    by_cases zero : b = 0 <;> simp [cstr,zero]

theorem signed_low {b : UInt8} {bs : Bytes} (size : bs.length = 3) :
    signed (b :: bs) % 256 = (b.toNat : Int) % 256 := by
  have whole : ((256 ^ (b :: bs).length : Nat) : Int) = 256 * 256 ^ 3 := by
    rw [List.length_cons,size]
    norm_num
  have divides : (256 : Int) ∣ ((256 ^ (b :: bs).length : Nat) : Int) := whole ▸ Dvd.intro _ rfl
  have residue := (Int.emod_emod_of_dvd (signed (b :: bs)) divides).symm
  rw [residue,signed,Int.bmod_emod,Int.emod_emod_of_dvd _ divides,ofLe]
  push_cast
  omega

/-- A key of full length ends where the length of the name starts, so the lowest byte of
the length has to be the missing terminator. -/
theorem low_byte_of_key {u r beyond : Bytes} (text : UuidText u) (size : r.length = sizeofDatauuid)
    (key : uuidOf r beyond = u) : namelenOf r % 256 = 0 := by
  have start : u = r.take 36 := by
    have first : u <+: r ++ beyond := key ▸ List.takeWhile_prefix _
    rw [List.prefix_iff_eq_take.mp first,text.length,List.take_append_of_le_length]
    simp [size,sizeofDatauuid]
  obtain ⟨b,bs,four⟩ : ∃ b bs, r.drop 36 = b :: bs :=
    List.exists_cons_of_length_pos (by simp [size,sizeofDatauuid])
  have three : bs.length = 3 := by
    have total := congrArg List.length four
    simp [size,sizeofDatauuid] at total
    omega
  have field : slice r 36 4 = b :: bs := by
    unfold slice
    rw [four,List.take_of_length_le]
    simp [three]
  have split : uuidOf r beyond = cstr (u ++ (b :: bs ++ beyond)) := by
    unfold uuidOf
    rw [start,← four,← List.append_assoc,List.take_append_drop]
  rw [split,cstr_full_key text] at key
  have zero : b = 0 := by simpa using key
  unfold namelenOf
  rw [field,signed_low three,zero]
  rfl

/-- A session key and the length of a name come out of some record just when the length is a
multiple of 256. -/
theorem key_survives_iff {u : Bytes} (text : UuidText u) {n : Int} (low : 1 ≤ n) (high : n < 2 ^ 31)
    (beyond : Bytes) : (∃ r, r.length = sizeofDatauuid ∧ uuidOf r beyond = u ∧ namelenOf r = n) ↔
      n % 256 = 0 := by
  constructor
  · rintro ⟨r,size,key,rfl⟩
    exact low_byte_of_key text size key
  · intro multiple
    refine ⟨recordOf u n,length_recordOf text.length.le n,?_,
      namelenOf_recordOf text.length.le (by omega) high⟩
    have gap : zeros (36 - u.length) = [] := by rw [text.length]; rfl
    have byte : (n % 4294967296).toNat % 256 = 0 := by omega
    unfold uuidOf
    rw [recordOf,gap,List.append_nil,List.append_assoc,cstr_full_key text]
    exact .inr (by simp [ofInt,toLe,byte])

def sampleUuid : Bytes := ascii "123e4567-e89b-12d3-a456-426614174000"

theorem sampleUuid_text : UuidText sampleUuid := ⟨by decide,by decide +kernel⟩

theorem sample_key_survives :
    (∃ r, r.length = sizeofDatauuid ∧ uuidOf r [] = sampleUuid ∧ namelenOf r = 256) ↔ (256 : Int) % 256 = 0 :=
  key_survives_iff sampleUuid_text (by decide) (by decide) []

/-- A name of five bytes leaves no room for the key. -/
theorem key_lost : ¬ ∀ (u : Bytes) (n : Int), UuidText u → 1 ≤ n → n < 2 ^ 31 →
    ∃ r, r.length = sizeofDatauuid ∧ (∀ beyond, uuidOf r beyond = u) ∧ namelenOf r = n := by
  intro claim
  obtain ⟨r,size,key,length⟩ := claim sampleUuid 5 sampleUuid_text (by decide) (by decide)
  have terminated := low_byte_of_key sampleUuid_text size (key [])
  rw [length] at terminated
  exact absurd terminated (by decide)

end FilediskServer.Utility
