import Mathlib.Data.List.TakeWhile
import Mathlib.Data.List.OfFn
import Mathlib.Tactic

/-! Byte strings as C programs read and write them: little-endian integers, strings
that end at a NUL, decimal numerals and lower-case hexadecimal. -/

abbrev Bytes := List UInt8

namespace Bytes

def ascii (s : String) : Bytes := s.toList.map fun c => UInt8.ofNat c.toNat

/-- The C string that starts a buffer. -/
def cstr (b : Bytes) : Bytes := b.takeWhile (· ≠ 0)

def slice (b : Bytes) (start size : Nat) : Bytes := (b.drop start).take size

/-- What a buffer holds once `got` has been copied to its position `start`. -/
def overlay (b : Bytes) (start : Nat) (got : Bytes) : Bytes :=
  b.take start ++ got ++ b.drop (start + got.length)

@[simp] theorem overlay_nil (b : Bytes) : overlay b 0 [] = b := by simp [overlay]

def zeros (n : Nat) : Bytes := List.replicate n 0

theorem overlay_full {b got : Bytes} (size : got.length = b.length) : overlay b 0 got = got := by
  simp [overlay,size]

theorem length_overlay {b got : Bytes} {start : Nat} (inside : start + got.length ≤ b.length) :
    (overlay b start got).length = b.length := by
  simp only [overlay,List.length_append,List.length_take,List.length_drop]
  omega

theorem take_overlay {b got : Bytes} {start : Nat} (inside : start + got.length ≤ b.length) :
    (overlay b start got).take (start + got.length) = b.take start ++ got := by
  have front : (b.take start ++ got).length = start + got.length := by
    rw [List.length_append,List.length_take]
    omega
  exact List.take_left' front

theorem drop_overlay {b got : Bytes} {start n : Nat} (inside : start + got.length ≤ b.length)
    (past : start + got.length ≤ n) : (overlay b start got).drop n = b.drop n := by
  have front : (b.take start ++ got).length = start + got.length := by
    rw [List.length_append,List.length_take]
    omega
  obtain ⟨k,rfl⟩ := Nat.exists_eq_add_of_le past
  unfold overlay
  rw [← front,List.drop_length_add_append,front,List.drop_drop]

/-- Bytes written where they are already. -/
theorem overlay_same {b got : Bytes} (same : got <+: b) : overlay b 0 got = b := by
  obtain ⟨rest,rfl⟩ := same
  simp [overlay]

theorem overlay_zeros {n : Nat} {got : Bytes} (size : got.length = n) : overlay (zeros n) 0 got = got :=
  overlay_full (by simp [zeros,size])

def ofLe : Bytes → Nat
  | [] => 0
  | b :: bs => b.toNat + 256 * ofLe bs

def toLe : Nat → Nat → Bytes
  | 0, _ => []
  | w + 1, n => UInt8.ofNat (n % 256) :: toLe w (n / 256)

/-- Two's complement: the value of a signed field of the given bytes. -/
def signed (b : Bytes) : Int := (ofLe b : Int).bmod (256 ^ b.length)

def ofInt (w : Nat) (x : Int) : Bytes := toLe w (x % 256 ^ w).toNat

@[simp] theorem length_toLe (w n : Nat) : (toLe w n).length = w := by
  induction w generalizing n with
  | zero => rfl
  | succ w ih => simp only [toLe,List.length_cons,ih]

@[simp] theorem length_ofInt (w : Nat) (x : Int) : (ofInt w x).length = w := length_toLe _ _

theorem ofLe_toLe (w n : Nat) : ofLe (toLe w n) = n % 256 ^ w := by
  induction w generalizing n with
  | zero => simp only [toLe,ofLe,Nat.pow_zero,Nat.mod_one]
  | succ w ih =>
    have byte : (UInt8.ofNat (n % 256)).toNat = n % 256 := by
      rw [UInt8.toNat_ofNat']
      omega
    unfold toLe
    rw [ofLe,ih,byte,Nat.pow_succ',Nat.mod_mul]

theorem signed_ofInt (w : Nat) (x : Int) (low : -(256 ^ (w + 1) : Nat) ≤ 2 * x)
    (high : 2 * x < (256 ^ (w + 1) : Nat)) : signed (ofInt (w + 1) x) = x := by
  have positive : (0 : Int) < ((256 ^ (w + 1) : Nat) : Int) := by positivity
  have even : (256 ^ (w + 1) : Nat) = 2 * (128 * 256 ^ w) := by rw [Nat.pow_succ]; ring
  have residue : (((x % 256 ^ (w + 1)).toNat % 256 ^ (w + 1) : Nat) : Int) =
      x % ((256 ^ (w + 1) : Nat) : Int) := by
    push_cast
    rw [Int.toNat_of_nonneg (Int.emod_nonneg _ (by positivity)),Int.emod_emod_of_dvd _ (dvd_refl _)]
  unfold signed
  rw [length_ofInt,ofInt,ofLe_toLe,residue,Int.emod_bmod]
  apply Int.bmod_eq_of_le <;> omega

theorem signed_lt {b : Bytes} {w : Nat} (size : b.length = w + 1) :
    2 * signed b < (256 ^ (w + 1) : Nat) := by
  have even : (256 ^ (w + 1) : Nat) = 2 * (128 * 256 ^ w) := by rw [Nat.pow_succ]; ring
  have positive : 0 < 256 ^ (w + 1) := by positivity
  have bound := @Int.bmod_lt (ofLe b) (256 ^ (w + 1)) positive
  unfold signed
  rw [size]
  push_cast at bound ⊢
  omega

theorem slice_append_right (start rest : Nat) {a : Bytes} (past : start = a.length + rest)
    (b : Bytes) (size : Nat) : slice (a ++ b) start size = slice b rest size := by
  rw [slice,slice,past,List.drop_length_add_append]

theorem cstr_eq_self {b : Bytes} (plain : 0 ∉ b) : cstr b = b :=
  List.takeWhile_eq_self_iff.mpr fun x member => by
    have nonzero : x ≠ 0 := fun zero => plain (zero ▸ member)
    simpa using nonzero

theorem cstr_append_of_plain {a : Bytes} (plain : 0 ∉ a) (b : Bytes) : cstr (a ++ b) = a ++ cstr b :=
  List.takeWhile_append_of_pos fun x member => by
    have nonzero : x ≠ 0 := fun zero => plain (zero ▸ member)
    simpa using nonzero

/-- What follows the NUL of a string is not part of it. -/
theorem cstr_terminated (b rest : Bytes) : cstr (b ++ 0 :: rest) = cstr b := by
  by_cases inside : 0 ∈ b
  · obtain ⟨front,back,rfl,plain⟩ := List.eq_append_cons_of_mem inside
    rw [List.append_assoc,cstr_append_of_plain plain,cstr_append_of_plain plain]
    simp [cstr]
  · rw [cstr_append_of_plain inside,cstr_eq_self inside]
    simp [cstr]

theorem length_cstr_le (b : Bytes) : (cstr b).length ≤ b.length := (List.takeWhile_prefix _).length_le

theorem length_cstr_iff {b : Bytes} : (cstr b).length = b.length ↔ 0 ∉ b := by
  constructor
  · intro size inside
    have same : cstr b = b := (List.takeWhile_prefix _).eq_of_length size
    rw [← same] at inside
    have nonzero := List.mem_takeWhile_imp inside
    simp at nonzero
  · intro plain
    rw [cstr_eq_self plain]

@[simp] theorem length_zeros (n : Nat) : (zeros n).length = n := List.length_replicate

/-! Decimal numerals. -/

/-- `std::to_string` of an unsigned number. -/
def decimal (n : Nat) : Bytes := (Nat.toDigits 10 n).map fun c => UInt8.ofNat c.toNat

/-- `std::to_string` of a signed number. -/
def decimalInt (x : Int) : Bytes :=
  if x < 0 then ascii "-" ++ decimal x.natAbs else decimal x.natAbs

def isDigit (b : UInt8) : Bool := 48 ≤ b && b ≤ 57

def isSpace (b : UInt8) : Bool := b == 32 || (9 ≤ b && b ≤ 13)

def digitsValue (b : Bytes) : Nat := b.foldl (fun v d => 10 * v + (d.toNat - 48)) 0

private theorem digit_char_bounds (c : Char) (digit : c.isDigit = true) :
    48 ≤ c.toNat ∧ c.toNat ≤ 57 := by
  simp only [Char.isDigit,Bool.and_eq_true,decide_eq_true_eq] at digit
  exact ⟨digit.1,digit.2⟩

private theorem digit_byte (c : Char) (digit : c.isDigit = true) :
    (UInt8.ofNat c.toNat).toNat = c.toNat := by
  have bounds := digit_char_bounds c digit
  rw [UInt8.toNat_ofNat']
  omega

theorem isDigit_of_mem_decimal {n : Nat} {b : UInt8} (member : b ∈ decimal n) : isDigit b = true := by
  obtain ⟨c,inside,rfl⟩ := List.mem_map.mp member
  have digit := Nat.isDigit_of_mem_toDigits (by omega) (by omega) inside
  have bounds := digit_char_bounds c digit
  have byte := digit_byte c digit
  simp only [isDigit,Bool.and_eq_true,decide_eq_true_eq,UInt8.le_iff_toNat_le,byte]
  exact bounds

theorem decimal_ne_nil (n : Nat) : decimal n ≠ [] := by
  simp [decimal,Nat.toDigits_ne_nil]

theorem digitsValue_decimal (n : Nat) : digitsValue (decimal n) = n := by
  have fold (cs : List Char) (digits : ∀ c ∈ cs, c.isDigit = true) (start : Nat) :
      (cs.map fun c => UInt8.ofNat c.toNat).foldl (fun v d => 10 * v + (d.toNat - 48)) start =
        Nat.ofDigitChars 10 cs start := by
    induction cs generalizing start with
    | nil => rfl
    | cons c cs ih =>
      rw [List.map_cons,List.foldl_cons,Nat.ofDigitChars_cons,digit_byte c (digits c (by simp)),
        ih (fun d member => digits d (by simp [member]))]
      rfl
  rw [digitsValue,decimal,fold _ (fun c member => Nat.isDigit_of_mem_toDigits (by omega) (by omega) member),
    Nat.ofDigitChars_ten_toDigits]

inductive NumeralError
  | invalid
  | outOfRange
  deriving DecidableEq, Repr

/-- `std::stoull`: blanks, a sign, then as many digits as there are; a negated value
wraps round. -/
def stoull (b : Bytes) : Except NumeralError UInt64 :=
  let b := b.dropWhile isSpace
  let negative := b.head? == some 45
  let b := if negative || b.head? == some 43 then b.tail else b
  let digits := b.takeWhile isDigit
  if digits = [] then .error .invalid
  else if 2 ^ 64 ≤ digitsValue digits then .error .outOfRange
  else .ok (if negative then -UInt64.ofNat (digitsValue digits) else UInt64.ofNat (digitsValue digits))

theorem stoull_decimal (n : UInt64) : stoull (decimal n.toNat) = .ok n := by
  have digits : ∀ b ∈ decimal n.toNat, isDigit b = true := fun _ => isDigit_of_mem_decimal
  have whole : (decimal n.toNat).takeWhile isDigit = decimal n.toNat :=
    List.takeWhile_eq_self_iff.mpr digits
  cases shape : decimal n.toNat with
  | nil => exact absurd shape (decimal_ne_nil _)
  | cons d ds =>
    have digit := digits d (by simp [shape])
    have notSpace : isSpace d = false := by
      have low := (Bool.and_eq_true_iff.mp digit).1
      simp only [decide_eq_true_eq,UInt8.le_iff_toNat_le,UInt8.reduceToNat] at low
      simp only [isSpace,Bool.or_eq_false_iff,beq_eq_false_iff_ne,Bool.and_eq_false_iff,
        decide_eq_false_iff_not,UInt8.le_iff_toNat_le,UInt8.reduceToNat]
      exact ⟨by rintro rfl; simp at low,Or.inr (by omega)⟩
    have sign : d ≠ 45 ∧ d ≠ 43 := by
      constructor <;> (rintro rfl; exact absurd digit (by decide))
    have value : digitsValue (d :: ds) = n.toNat := shape ▸ digitsValue_decimal _
    have bound : n.toNat < 18446744073709551616 := n.toNat_lt
    rw [shape] at whole
    simp [stoull,notSpace,sign,whole,value,bound]

/-! Hexadecimal. -/

def hexDigit (n : Nat) : UInt8 := if n < 10 then UInt8.ofNat (48 + n) else UInt8.ofNat (87 + n)

/-- `sprintf` with `%02x`. -/
def hexByte (b : UInt8) : Bytes := [hexDigit (b.toNat / 16),hexDigit (b.toNat % 16)]

def hex (b : Bytes) : Bytes := b.flatMap hexByte

@[simp] theorem length_hex (b : Bytes) : (hex b).length = 2 * b.length := by
  induction b with
  | nil => rfl
  | cons x b ih => simp only [hex,List.flatMap_cons,List.length_append] at *; simp [hexByte,ih]; omega

theorem hexDigit_injective {m n : Nat} (hm : m < 16) (hn : n < 16)
    (same : hexDigit m = hexDigit n) : m = n := by
  have value (k : Nat) (bound : k < 16) :
      (hexDigit k).toNat = if k < 10 then 48 + k else 87 + k := by
    unfold hexDigit
    split <;> rw [UInt8.toNat_ofNat'] <;> omega
  have equal := congrArg UInt8.toNat same
  rw [value m hm,value n hn] at equal
  split at equal <;> split at equal <;> omega

theorem hexByte_injective : Function.Injective hexByte := fun a b same => by
  simp only [hexByte,List.cons.injEq,and_true] at same
  have ha : a.toNat < 256 := a.toNat_lt
  have hb : b.toNat < 256 := b.toNat_lt
  have high := hexDigit_injective (by omega) (by omega) same.1
  have low := hexDigit_injective (by omega) (by omega) same.2
  exact UInt8.toNat_inj.mp (by omega)

theorem hex_injective : Function.Injective hex := fun a b same => by
  induction a generalizing b with
  | nil =>
    cases b with
    | nil => rfl
    | cons y b => simp [hex,hexByte] at same
  | cons x a ih =>
    cases b with
    | nil => simp [hex,hexByte] at same
    | cons y b =>
      simp only [hex,List.flatMap_cons] at same
      obtain ⟨first,rest⟩ := List.append_inj same (by simp [hexByte])
      rw [hexByte_injective first,ih b rest]

def isHexDigit (b : UInt8) : Bool := isDigit b || (97 ≤ b && b ≤ 102)

theorem isHexDigit_of_mem_hex {b : Bytes} {x : UInt8} (member : x ∈ hex b) : isHexDigit x = true := by
  have every : ∀ n : Fin 16, isHexDigit (hexDigit n) = true := by decide
  obtain ⟨y,_,inside⟩ := List.mem_flatMap.mp member
  have bound : y.toNat < 256 := y.toNat_lt
  rcases List.mem_cons.mp inside with rfl | last
  · exact every ⟨y.toNat / 16,by omega⟩
  · rw [List.mem_singleton.mp last]
    exact every ⟨y.toNat % 16,by omega⟩

end Bytes
