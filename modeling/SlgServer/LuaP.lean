import SlgServer.BigEndian
import Mathlib.Algebra.Ring.Int.Defs
import Mathlib.Data.List.TakeWhile

/-!
# The packer in C (`3rd/p/lua-p.c`)

`pack` puts six bytes in front of a message: two for a version `v`, four for a protocol
`p`, the high bytes first. `unpack` takes them off again. The shifts and disjunctions work
on `int`, 32 bits in two's complement, and write and read the bytes of `BigEndian`
(`header_eq`, `versionOf_eq`, `protocolOf_eq`).

`pack` hands the message on with its length (`lua_pushlstring`), `unpack` as a C string
(`lua_pushstring`), which ends at the first zero byte. So what is lost on the way there and
back is what stands behind one (`unpack_pack`).
-/

namespace SlgServer.LuaP

open BigEndian

/-- A Lua string. -/
abbrev Bytes : Type := List UInt8

/-- An operand of C's operators, brought to `int`. -/
def int {w : ℕ} (x : BitVec w) : BitVec 32 := x.setWidth 32

/-- What `uint8_t` keeps of `x & 0xff`. -/
def lowByte (x : BitVec 32) : UInt8 := ⟨(x &&& 0xff).setWidth 8⟩

/-- The six bytes that `_pack` writes in front of the message. -/
def header (v : BitVec 16) (p : BitVec 32) : Bytes :=
  -- `v` is not negative as an `int`, so `>>` fills in zeros
  [lowByte (int v >>> 8), lowByte (int v),
    lowByte (p >>> 24), lowByte (p >>> 16), lowByte (p >>> 8), lowByte p]

/-- `_pack`. The error text is without the place that `luaL_error` puts in front. -/
def pack (v p : ℤ) (msg : Bytes) : Except String Bytes :=
  let v := BitVec.ofInt 16 v
  let p := BitVec.ofInt 32 p
  let size := msg.length
  if 0x10000 < size then
    .error ("Invalid size (too long) of data : " ++ toString (BitVec.ofNat 32 size).toInt)
  else .ok (header v p ++ msg)

/-- What `_unpack` puts together for `v`. -/
def versionOf (b₀ b₁ : UInt8) : BitVec 16 :=
  (int b₀.toBitVec <<< 8 ||| int b₁.toBitVec).setWidth 16

/-- What `_unpack` puts together for `p`. -/
def protocolOf (b₂ b₃ b₄ b₅ : UInt8) : BitVec 32 :=
  -- the highest bit goes through the sign of the `int`, which `uint32_t` reads as a bit again
  int b₂.toBitVec <<< 24 ||| int b₃.toBitVec <<< 16 ||| int b₄.toBitVec <<< 8 |||
    int b₅.toBitVec

/-- The C string at the beginning of `s`; Lua keeps a zero byte behind every string. -/
def cString (s : Bytes) : Bytes := s.takeWhile (· ≠ 0)

/-- The table that `_unpack` returns. -/
structure Unpacked : Type where
  /-- `v` -/
  v : ℤ
  /-- `p` -/
  p : ℤ
  /-- `msg` -/
  msg : Bytes
  deriving DecidableEq

/-- `_unpack`, `none` where it reads past the end of the string. -/
def unpack : Bytes → Option Unpacked
  | b₀ :: b₁ :: b₂ :: b₃ :: b₄ :: b₅ :: msg =>
    some ⟨(versionOf b₀ b₁).toNat, (protocolOf b₂ b₃ b₄ b₅).toNat, cString msg⟩
  | _ => none

/-! ## The header -/

theorem toNat_int {w : ℕ} (hw : w ≤ 32) (x : BitVec w) : (int x).toNat = x.toNat := by
  rw [int, BitVec.toNat_setWidth, Nat.mod_eq_of_lt]
  exact Nat.lt_of_lt_of_le x.isLt (Nat.pow_le_pow_right (by decide) hw)

/-- A byte shifted within `int`, which loses no bit. -/
theorem toNat_int_shiftLeft (b : UInt8) {k : ℕ} (hk : k ≤ 24) :
    (int b.toBitVec <<< k).toNat = b.toNat <<< k := by
  have hlt : b.toNat <<< k < 2 ^ 32 := by
    rw [Nat.shiftLeft_eq]
    calc b.toNat * 2 ^ k ≤ b.toNat * 2 ^ 24 :=
          Nat.mul_le_mul_left _ (Nat.pow_le_pow_right (by decide) hk)
      _ < 2 ^ 8 * 2 ^ 24 := Nat.mul_lt_mul_of_pos_right b.toNat_lt (by decide)
  rw [BitVec.toNat_shiftLeft, toNat_int (by decide), UInt8.toNat_toBitVec, Nat.mod_eq_of_lt hlt]

theorem lowByte_eq (x : BitVec 32) : lowByte x = UInt8.ofNat x.toNat := by
  have hmask : (0xff : BitVec 32).toNat = 2 ^ 8 - 1 := rfl
  apply UInt8.toNat_inj.mp
  rw [lowByte, UInt8.toNat_ofNat', UInt8.toNat_ofBitVec, BitVec.toNat_setWidth, BitVec.toNat_and,
    hmask, Nat.and_two_pow_sub_one_eq_mod, Nat.mod_mod]

/-- `_pack` writes the bytes of `v` and of `p`. -/
theorem header_eq (v : BitVec 16) (p : BitVec 32) :
    header v p = bytes 2 v.toNat ++ bytes 4 p.toNat := by
  simp only [header, lowByte_eq, BitVec.toNat_ushiftRight, toNat_int (show 16 ≤ 32 by decide)]
  rfl

/-- `_unpack` reads two bytes for `v`. -/
theorem versionOf_eq (b₀ b₁ : UInt8) : (versionOf b₀ b₁).toNat = value [b₀, b₁] := by
  have hlt : value [b₀, b₁] < 2 ^ 16 := by
    simpa using value_lt [b₀, b₁]
  have hvalue : value [b₀, b₁] = b₀.toNat <<< 8 ||| b₁.toNat := by
    simp [value_cons_or]
  rw [versionOf, BitVec.toNat_setWidth, BitVec.toNat_or, toNat_int_shiftLeft _ (by decide),
    toNat_int (by decide), UInt8.toNat_toBitVec, ← hvalue, Nat.mod_eq_of_lt hlt]

/-- `_unpack` reads four bytes for `p`. -/
theorem protocolOf_eq (b₂ b₃ b₄ b₅ : UInt8) :
    (protocolOf b₂ b₃ b₄ b₅).toNat = value [b₂, b₃, b₄, b₅] := by
  have hvalue : value [b₂, b₃, b₄, b₅] =
      b₂.toNat <<< 24 ||| b₃.toNat <<< 16 ||| b₄.toNat <<< 8 ||| b₅.toNat := by
    simp [value_cons_or, Nat.or_assoc]
  simp only [protocolOf, BitVec.toNat_or]
  rw [toNat_int_shiftLeft _ (by decide), toNat_int_shiftLeft _ (by decide),
    toNat_int_shiftLeft _ (by decide), toNat_int (by decide), UInt8.toNat_toBitVec, hvalue]

/-- A header is read as it was written. -/
theorem unpack_header (v : BitVec 16) (p : BitVec 32) (msg : Bytes) :
    unpack (header v p ++ msg) = some ⟨v.toNat, p.toNat, cString msg⟩ := by
  have hv : value (bytes 2 v.toNat) = v.toNat := value_bytes_of_lt v.isLt
  have hp : value (bytes 4 p.toNat) = p.toNat := value_bytes_of_lt p.isLt
  rw [header_eq]
  simp only [bytes, List.cons_append, List.nil_append, unpack, versionOf_eq, protocolOf_eq]
    at hv hp ⊢
  rw [hv, hp]

/-! ## There and back -/

theorem cString_eq_self_iff {s : Bytes} : cString s = s ↔ 0 ∉ s := by
  rw [cString, List.takeWhile_eq_self_iff]
  refine ⟨fun h h0 => ?_, fun h b hb => ?_⟩
  · exact absurd (h 0 h0) (by decide)
  · exact decide_eq_true (ne_of_mem_of_not_mem hb h)

theorem zero_notMem_cString (s : Bytes) : 0 ∉ cString s := by
  intro h
  exact absurd (List.mem_takeWhile_imp h) (by decide)

theorem pack_eq_ok_iff {v p : ℤ} {msg data : Bytes} :
    pack v p msg = .ok data ↔
      msg.length ≤ 65536 ∧ header (BitVec.ofInt 16 v) (BitVec.ofInt 32 p) ++ msg = data := by
  rw [pack]
  by_cases hmsg : msg.length ≤ 65536
  · rw [if_neg (Nat.not_lt.mpr hmsg), Except.ok.injEq]
    exact (and_iff_right hmsg).symm
  · rw [if_pos (Nat.lt_of_not_le hmsg)]
    exact ⟨fun h => (by cases h), fun h => absurd h.1 hmsg⟩

/-- A number that fits comes through the conversion. -/
theorem toNat_ofInt {w : ℕ} {i : ℤ} (hi : 0 ≤ i) (hw : i < 2 ^ w) :
    ((BitVec.ofInt w i).toNat : ℤ) = i := by
  have hcast : ((2 ^ w : ℕ) : ℤ) = 2 ^ w := Int.natCast_pow 2 w
  rw [BitVec.toNat_ofInt, hcast, Int.emod_eq_of_lt hi hw, Int.toNat_of_nonneg hi]

/-- What comes back: `v` and `p`, and the message up to its first zero byte. -/
theorem unpack_pack {v p : ℤ} {msg : Bytes} (hv : 0 ≤ v ∧ v ≤ 65535) (hp : 0 ≤ p ∧ p ≤ 4294967295)
    (hmsg : msg.length ≤ 65536) :
    ∃ data, pack v p msg = .ok data ∧ unpack data = some ⟨v, p, cString msg⟩ := by
  refine ⟨_, pack_eq_ok_iff.mpr ⟨hmsg, rfl⟩, ?_⟩
  rw [unpack_header, toNat_ofInt hv.1 (by omega), toNat_ofInt hp.1 (by omega)]

/-- **Packing and unpacking** gives back a message exactly if there is no zero byte in it. -/
theorem unpack_pack_iff {v p : ℤ} {msg : Bytes} (hv : 0 ≤ v ∧ v ≤ 65535)
    (hp : 0 ≤ p ∧ p ≤ 4294967295) (hmsg : msg.length ≤ 65536) :
    (∃ data, pack v p msg = .ok data ∧ unpack data = some ⟨v, p, msg⟩) ↔ 0 ∉ msg := by
  obtain ⟨data, hpack, hunpack⟩ := unpack_pack hv hp hmsg
  rw [← cString_eq_self_iff]
  refine ⟨?_, fun h => ⟨data, hpack, by rw [hunpack, h]⟩⟩
  rintro ⟨data', hpack', hunpack'⟩
  obtain rfl := Except.ok.inj (hpack.symm.trans hpack')
  exact congrArg Unpacked.msg (Option.some.inj (hunpack.symm.trans hunpack'))

/-- The call in `p.lua`, with the character 徐 for a message. -/
theorem unpack_pack_iff_demo :
    (∃ data, pack 65535 4294967295 [0xE5, 0xBE, 0x90] = .ok data ∧
      unpack data = some ⟨65535, 4294967295, [0xE5, 0xBE, 0x90]⟩) ↔
    0 ∉ ([0xE5, 0xBE, 0x90] : Bytes) :=
  unpack_pack_iff (by decide) (by decide) (by decide)

/-- A message of one zero byte comes back empty. -/
theorem zero_byte_lost :
    ¬ ∀ (v p : ℤ) (msg : Bytes), 0 ≤ v ∧ v ≤ 65535 → 0 ≤ p ∧ p ≤ 4294967295 →
      msg.length ≤ 65536 → ∃ data, pack v p msg = .ok data ∧ unpack data = some ⟨v, p, msg⟩ := by
  intro h
  obtain ⟨data, hpack, hunpack⟩ := h 1 1 [0] (by decide) (by decide) (by decide)
  have hdata : pack 1 1 [0] = .ok [0, 1, 0, 0, 0, 1, 0] := rfl
  obtain rfl := Except.ok.inj (hdata.symm.trans hpack)
  revert hunpack
  decide

/-! ## Each half alone -/

/-- `pack` loses nothing: what it writes tells `v`, `p` and the message. -/
theorem pack_injective {v p v' p' : ℤ} {msg msg' data : Bytes} (hv : 0 ≤ v ∧ v ≤ 65535)
    (hp : 0 ≤ p ∧ p ≤ 4294967295) (hv' : 0 ≤ v' ∧ v' ≤ 65535) (hp' : 0 ≤ p' ∧ p' ≤ 4294967295)
    (h : pack v p msg = .ok data) (h' : pack v' p' msg' = .ok data) :
    v = v' ∧ p = p' ∧ msg = msg' := by
  obtain ⟨hmsg, rfl⟩ := pack_eq_ok_iff.mp h
  obtain ⟨-, heq⟩ := pack_eq_ok_iff.mp h'
  obtain ⟨-, hmsgs⟩ := List.append_inj heq rfl
  have hunpack := congrArg unpack heq
  rw [unpack_header, unpack_header, toNat_ofInt hv.1 (by omega), toNat_ofInt hp.1 (by omega),
    toNat_ofInt hv'.1 (by omega), toNat_ofInt hp'.1 (by omega), Option.some.injEq,
    Unpacked.mk.injEq] at hunpack
  exact ⟨hunpack.1.symm, hunpack.2.1.symm, hmsgs.symm⟩

/-- What `unpack` returns: numbers that fit, and a message without a zero byte. -/
theorem exists_unpack_iff {u : Unpacked} :
    (∃ data, unpack data = some u) ↔
      (0 ≤ u.v ∧ u.v ≤ 65535) ∧ (0 ≤ u.p ∧ u.p ≤ 4294967295) ∧ 0 ∉ u.msg := by
  refine ⟨?_, ?_⟩
  · rintro ⟨data, h⟩
    match data with
    | [] | [_] | [_, _] | [_, _, _] | [_, _, _, _] | [_, _, _, _, _] => cases h
    | b₀ :: b₁ :: b₂ :: b₃ :: b₄ :: b₅ :: msg =>
      obtain rfl := Option.some.inj h
      have hv := (versionOf b₀ b₁).isLt
      have hp := (protocolOf b₂ b₃ b₄ b₅).isLt
      dsimp only
      exact ⟨by omega, by omega, zero_notMem_cString msg⟩
  · rintro ⟨hv, hp, hmsg⟩
    refine ⟨header (BitVec.ofInt 16 u.v) (BitVec.ofInt 32 u.p) ++ u.msg, ?_⟩
    rw [unpack_header, toNat_ofInt hv.1 (by omega), toNat_ofInt hp.1 (by omega),
      cString_eq_self_iff.mpr hmsg]

end SlgServer.LuaP
