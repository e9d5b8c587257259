import FilediskServer.Library.Bytes
import Mathlib.Data.Nat.Log

/-! Numbers in base 128: seven bits to a byte, the lowest first, with the high bit set on all bytes
but the last. -/
namespace Varint

/-- At most so many bytes. -/
def encode : Nat → Nat → Bytes
  | 0, _ => []
  | limit + 1, n => if n < 128 then [UInt8.ofNat n] else UInt8.ofNat (n % 128 + 128) :: encode limit (n / 128)

/-- A number of at most so many bytes, and what is behind it. -/
def decode : Nat → Bytes → Option (Nat × Bytes)
  | 0, _ => none
  | _, [] => none
  | limit + 1, b :: rest =>
    if b.toNat < 128 then some (b.toNat,rest)
    else (decode limit rest).map fun x => (b.toNat - 128 + 128 * x.1,x.2)

def size (n : Nat) : Nat := Nat.log 128 n + 1

theorem lower_bound {limit n : Nat} (bound : n < 128 ^ (limit + 1)) (large : ¬ n < 128) :
    n / 128 < 128 ^ limit ∧ 0 < limit := by
  have lower : n / 128 < 128 ^ limit := Nat.div_lt_of_lt_mul (by rwa [pow_succ,Nat.mul_comm] at bound)
  refine ⟨lower,Nat.pos_of_ne_zero ?_⟩
  rintro rfl
  rw [pow_zero] at lower
  omega

theorem decode_encode {limit n : Nat} (bound : n < 128 ^ limit) (some' : 0 < limit) (rest : Bytes) :
    decode limit (encode limit n ++ rest) = some (n,rest) := by
  induction limit generalizing n with
  | zero => exact absurd some' (lt_irrefl 0)
  | succ limit ih =>
    unfold encode
    split_ifs with small
    · have byte : (UInt8.ofNat n).toNat = n := UInt8.toNat_ofNat_of_lt' (by simp [UInt8.size]; omega)
      rw [List.singleton_append,decode,byte,if_pos small]
    · have byte : (UInt8.ofNat (n % 128 + 128)).toNat = n % 128 + 128 :=
        UInt8.toNat_ofNat_of_lt' (by simp [UInt8.size]; omega)
      obtain ⟨lower,more⟩ := lower_bound bound small
      rw [List.cons_append,decode,byte,if_neg (by omega),ih lower more]
      have whole : n % 128 + 128 - 128 + 128 * (n / 128) = n := by omega
      rw [Option.map_some,whole]

theorem decode_shorter {limit n : Nat} {b rest : Bytes} (read : decode limit b = some (n,rest)) :
    rest.length < b.length := by
  induction limit generalizing b n with
  | zero => cases read
  | succ limit ih =>
    cases b with
    | nil => cases read
    | cons x b =>
      rw [decode] at read
      split_ifs at read
      · cases read
        exact Nat.lt_succ_self _
      · obtain ⟨⟨m,t⟩,inner,same⟩ := Option.map_eq_some_iff.mp read
        cases same
        exact (ih inner).trans (Nat.lt_succ_self _)

theorem length_encode {limit n : Nat} (bound : n < 128 ^ limit) (some' : 0 < limit) :
    (encode limit n).length = size n := by
  induction limit generalizing n with
  | zero => exact absurd some' (lt_irrefl 0)
  | succ limit ih =>
    unfold encode size
    split_ifs with small
    · rw [Nat.log_of_lt small]
      rfl
    · obtain ⟨lower,more⟩ := lower_bound bound small
      rw [List.length_cons,ih lower more,Nat.log_of_one_lt_of_le (by omega) (by omega)]
      rfl

end Varint
