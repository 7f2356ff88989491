import Mathlib.Algebra.Ring.Nat
import Mathlib.Data.List.Basic

/-!
# Numbers as bytes, the high byte first

`bytes k n` is the number `n` in `k` bytes and `value bs` the number that the bytes
`bs` write. The two are inverse to each other, for numbers that fit (`value_bytes`,
`bytes_value`).

Programs put the bytes together with shifts and disjunctions; `value_cons_or` says that
this is the same number.
-/

namespace BigEndian

/-- The number `n` in `k` bytes; what does not fit is cut off at the high end. -/
def bytes : ℕ → ℕ → List UInt8
  | 0, _ => []
  | k + 1, n => UInt8.ofNat (n >>> (8 * k)) :: bytes k n

/-- The number that the bytes write. -/
def value : List UInt8 → ℕ
  | [] => 0
  | b :: bs => b.toNat * 256 ^ bs.length + value bs

@[simp] theorem value_nil : value [] = 0 := rfl

theorem value_pair (x y : UInt8) : value [x, y] = x.toNat * 256 + y.toNat := by
  simp [value]

@[simp] theorem length_bytes (k n : ℕ) : (bytes k n).length = k := by
  induction k with
  | zero => rfl
  | succ k ih => rw [bytes, List.length_cons, ih]

theorem value_lt (bs : List UInt8) : value bs < 256 ^ bs.length := by
  induction bs with
  | nil => decide
  | cons b bs ih =>
    have hb : b.toNat + 1 ≤ 256 := b.toNat_lt
    calc value (b :: bs) = b.toNat * 256 ^ bs.length + value bs := rfl
      _ < b.toNat * 256 ^ bs.length + 256 ^ bs.length := Nat.add_lt_add_left ih _
      _ = (b.toNat + 1) * 256 ^ bs.length := (Nat.succ_mul _ _).symm
      _ ≤ 256 * 256 ^ bs.length := Nat.mul_le_mul_right _ hb
      _ = 256 ^ (b :: bs).length := (Nat.pow_succ').symm

/-- Writing a number and reading it again. -/
theorem value_bytes (k n : ℕ) : value (bytes k n) = n % 256 ^ k := by
  induction k with
  | zero => rw [Nat.pow_zero, Nat.mod_one, bytes, value]
  | succ k ih =>
    have hbase : (2 : ℕ) ^ (8 * k) = 256 ^ k := by rw [Nat.pow_mul]
    have hhigh : n % 256 ^ (k + 1) = n % 256 ^ k + 256 ^ k * (n / 256 ^ k % 256) :=
      Nat.mod_pow_succ
    rw [bytes, value, length_bytes, ih, UInt8.toNat_ofNat', Nat.shiftRight_eq_div_pow, hbase, hhigh,
      Nat.add_comm, Nat.mul_comm]

/-- A number that fits is read as it was written. -/
theorem value_bytes_of_lt {k n : ℕ} (h : n < 256 ^ k) : value (bytes k n) = n := by
  rw [value_bytes, Nat.mod_eq_of_lt h]

/-- The high byte is the quotient, -/
theorem value_cons_div (b : UInt8) (bs : List UInt8) :
    value (b :: bs) / 256 ^ bs.length = b.toNat := by
  rw [value, Nat.mul_comm, Nat.mul_add_div (Nat.pow_pos (by decide)),
    Nat.div_eq_of_lt (value_lt bs), Nat.add_zero]

/-- and the other bytes write the remainder. -/
theorem value_cons_mod (b : UInt8) (bs : List UInt8) :
    value (b :: bs) % 256 ^ bs.length = value bs := by
  rw [value, Nat.mul_comm, Nat.mul_add_mod, Nat.mod_eq_of_lt (value_lt bs)]

/-- Bytes of one length that write the same number are the same. -/
theorem value_injective {bs cs : List UInt8} (hlen : bs.length = cs.length)
    (h : value bs = value cs) : bs = cs := by
  induction bs generalizing cs with
  | nil => exact (List.eq_nil_of_length_eq_zero hlen.symm).symm
  | cons b bs ih =>
    obtain _ | ⟨c, cs⟩ := cs
    · cases hlen
    · have hlen' : bs.length = cs.length := Nat.succ.inj hlen
      have hhigh : b.toNat = c.toNat := by
        rw [← value_cons_div b bs, h, hlen', value_cons_div]
      have hrest : value bs = value cs := by
        rw [← value_cons_mod b bs, h, hlen', value_cons_mod]
      rw [UInt8.toNat_inj.mp hhigh, ih hlen' hrest]

/-- Reading bytes and writing them again. -/
theorem bytes_value (bs : List UInt8) : bytes bs.length (value bs) = bs := by
  apply value_injective (length_bytes _ _)
  exact value_bytes_of_lt (value_lt bs)

/-- The bytes put together as programs do it. -/
theorem value_cons_or (b : UInt8) (bs : List UInt8) :
    value (b :: bs) = b.toNat <<< (8 * bs.length) ||| value bs := by
  have hbase : (2 : ℕ) ^ (8 * bs.length) = 256 ^ bs.length := by rw [Nat.pow_mul]
  rw [← Nat.shiftLeft_add_eq_or_of_lt (hbase ▸ value_lt bs), Nat.shiftLeft_eq, hbase, value]

end BigEndian
