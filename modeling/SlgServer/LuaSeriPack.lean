import SlgServer.LuaSeri
import Mathlib.Data.List.Range

/-!
# What packing writes

Packing writes to blocks of 128 bytes; `seri` puts them together to the bytes written, in their
order (`seri_eq`). Each writer appends some bytes, and the matching reader gives back what was
written, whatever follows.
-/

namespace SlgServer.LuaSeri

/-! ## Blocks -/

/-- The bytes written so far. -/
def WriteBlock.bytes (wb : WriteBlock) : List UInt8 := wb.blocks.flatten ++ wb.buffer

theorem WriteBlock.length_bytes (wb : WriteBlock) : wb.bytes.length = wb.len := by
  rw [WriteBlock.bytes, List.length_append, wb.total]

/-- What is copied to the block comes after what is there. -/
theorem bytes_copy (wb : WriteBlock) (buf : List UInt8)
    (h : buf.length ≤ blockSize - wb.buffer.length) : (wb.copy buf h).bytes = wb.bytes ++ buf :=
  (List.append_assoc ..).symm

/-- A new block has no bytes yet. -/
theorem bytes_alloc (wb : WriteBlock) (h : wb.buffer.length = blockSize) :
    (wb.alloc h).bytes = wb.bytes := by
  rw [WriteBlock.bytes, WriteBlock.alloc, List.flatten_concat, List.append_nil]
  rfl

/-- The rounds of the loop; only the first one can find a full block. -/
theorem bytes_again {n : ℕ} (wb : WriteBlock) (buf : List UInt8)
    (hn : buf.length + (if wb.buffer.length = blockSize then 2 else 1) ≤ n) :
    (wb.again n buf).bytes = wb.bytes ++ buf := by
  induction n generalizing wb buf with
  | zero =>
    split_ifs at hn
    · omega
    · omega
  | succ n ih =>
    rw [WriteBlock.again]
    have hfits := wb.fits
    split_ifs with hroom
    · exact bytes_copy wb buf hroom.2
    · dsimp only
      have hfull : (wb.copy (buf.take (blockSize - wb.buffer.length))
          (List.length_take_le _ _)).buffer.length = blockSize := by
        rw [WriteBlock.copy, List.length_append, List.length_take]
        omega
      rw [dif_pos hfull, ih, bytes_alloc, bytes_copy, List.append_assoc, List.take_append_drop]
      have hempty : ((wb.copy (buf.take (blockSize - wb.buffer.length))
          (List.length_take_le _ _)).alloc hfull).buffer.length ≠ blockSize :=
        Nat.ne_of_lt (Nat.zero_lt_succ 127)
      rw [if_neg hempty, List.length_drop]
      split_ifs at hn
      · omega
      · omega

/-- **`wb_push` appends**, over as many blocks as it takes. -/
@[simp] theorem bytes_push (wb : WriteBlock) (buf : List UInt8) :
    (wb.push buf).bytes = wb.bytes ++ buf := by
  apply bytes_again
  split_ifs
  · exact Nat.le_refl _
  · exact Nat.le_succ _

/-- `seri` gives the bytes that were written. -/
theorem seri_eq (wb : WriteBlock) : seri (wb.blocks ++ [wb.buffer]) wb.len = wb.bytes := by
  have hfits := wb.fits
  rw [wb.total, WriteBlock.bytes]
  have hfull := wb.full
  generalize wb.blocks = blocks at hfull ⊢
  induction blocks with
  | nil =>
    rw [List.flatten_nil, List.nil_append, List.length_nil, Nat.zero_add, List.nil_append, seri]
    split_ifs with hzero hle
    · exact (List.eq_nil_of_length_eq_zero hzero).symm
    · have hrest : seri [] (wb.buffer.length - blockSize) = [] := rfl
      rw [hrest, List.append_nil]
    · exact List.take_length
  | cons b blocks ih =>
    have hb : b.length = blockSize := hfull b (.head _)
    have hlen : (b :: blocks).flatten.length = blockSize + blocks.flatten.length := by
      rw [List.flatten_cons, List.length_append, hb]
    have hpos : blockSize = 128 := rfl
    rw [List.cons_append, seri, if_neg (by omega), if_pos (by omega), hlen, Nat.add_assoc,
      Nat.add_sub_cancel_left, ih fun c hc => hfull c (.tail _ hc), List.flatten_cons,
      List.append_assoc]

/-! ## Numbers and strings -/

/-- The type is in the low three bits, and the detail above them. -/
theorem toNat_combineType {t v : ℕ} (ht : t < 8) (hv : v < 32) :
    (combineType t v).toNat = 8 * v + t := by
  have hor : t ||| v <<< 3 = 8 * v + t := by
    rw [Nat.or_comm, ← Nat.shiftLeft_add_eq_or_of_lt ht, Nat.shiftLeft_eq, Nat.mul_comm]
  rw [combineType, hor, UInt8.toNat_ofNat', Nat.mod_eq_of_lt (by omega)]

/-- A type byte is taken apart as it was put together. -/
theorem type_combineType {t v : ℕ} (ht : t < 8) (hv : v < 32) :
    (combineType t v).toNat % 8 = t ∧ (combineType t v).toNat >>> 3 = v := by
  rw [toNat_combineType ht hv, Nat.shiftRight_eq_div_pow]
  omega

theorem length_memory (k n : ℕ) : (memory k n).length = k := by
  rw [memory, List.length_reverse, BigEndian.length_bytes]

/-- A number that is too large for its bytes loses what is above them. -/
theorem ofMemory_memory (k n : ℕ) : ofMemory (memory k n) = n % 256 ^ k := by
  rw [ofMemory, memory, List.reverse_reverse, BigEndian.value_bytes]

/-- What was written is read first, and what follows is left. -/
theorem rbRead_append {bs : List UInt8} {k : ℕ} (h : bs.length = k) (rest : List UInt8) :
    rbRead k (bs ++ rest) = some (bs, rest) := by
  have hlen : ¬ (bs ++ rest).length < k := by rw [List.length_append]; omega
  rw [rbRead, if_neg hlen, List.take_left' h, List.drop_left' h]

theorem readMemory_memory (line k n : ℕ) (rest : List UInt8) :
    readMemory line k (memory k n ++ rest) = .ok (n % 256 ^ k, rest) := by
  rw [readMemory, rbRead_append (length_memory k n)]
  dsimp only
  rw [ofMemory_memory]

theorem bytes_push_push (wb : WriteBlock) (t : UInt8) (bs : List UInt8) :
    ((wb.push [t]).push bs).bytes = wb.bytes ++ t :: bs := by
  rw [bytes_push, bytes_push, List.append_assoc]
  rfl

/-- A number that is small enough for `k` bytes. -/
theorem ofNat_mod {v : BitVec 64} {n : ℕ} (h : v.toNat < n) :
    BitVec.ofNat 64 (v.toNat % n) = v := by
  rw [Nat.mod_eq_of_lt h, BitVec.ofNat_toNat, BitVec.setWidth_eq]

/-- An integer that is not negative is its bits. -/
theorem toNat_lt {v : BitVec 64} (hneg : ¬ v.toInt < 0) {n : ℕ} (h : v.toInt < n) :
    v.toNat < n := by
  have hlt := v.isLt
  rw [BitVec.toInt_eq_toNat_cond] at h hneg
  split_ifs at h hneg
  · omega
  · omega

/-- A number that fits is read as it was written. -/
theorem read_memory {v : BitVec 64} (line : ℕ) {k : ℕ} (h : v.toNat < 256 ^ k) (rest : List UInt8) :
    (do let (n, rb) ← readMemory line k (memory k v.toNat ++ rest)
        return (BitVec.ofNat 64 n, rb) : Except Error (BitVec 64 × List UInt8)) =
      .ok (v, rest) := by
  rw [readMemory_memory]
  exact congrArg (fun x => Except.ok (x, rest)) (ofNat_mod h)

/-- `wb_integer` and `get_integer`. -/
theorem bytes_integer (wb : WriteBlock) (v : BitVec 64) :
    ∃ cookie bs, (wb.integer v).bytes = wb.bytes ++ combineType typeNumber cookie :: bs ∧
      cookie < typeNumberReal ∧ ∀ rest, getInteger cookie (bs ++ rest) = .ok (v, rest) := by
  have hdword (h : v = (v.setWidth 32).signExtend 64) (rest : List UInt8) :
      getInteger typeNumberDword (memory 4 v.toNat ++ rest) = .ok (v, rest) := by
    have hwidth : (BitVec.ofNat 32 (v.toNat % 256 ^ 4)).signExtend 64 = v := by
      have heq : BitVec.ofNat 32 (v.toNat % 256 ^ 4) = v.setWidth 32 := by
        apply BitVec.eq_of_toNat_eq
        rw [BitVec.toNat_ofNat, BitVec.toNat_setWidth]
        exact Nat.mod_mod _ _
      rw [heq, ← h]
    have hget : getInteger typeNumberDword (memory 4 v.toNat ++ rest) =
        (do let (n, rb) ← readMemory 384 4 (memory 4 v.toNat ++ rest)
            return ((BitVec.ofNat 32 n).signExtend 64, rb)) := rfl
    rw [hget, readMemory_memory]
    exact congrArg (fun x => Except.ok (x, rest)) hwidth
  rw [WriteBlock.integer]
  split_ifs with hzero hqword hneg hbyte hword
  · exact ⟨typeNumberZero, [], bytes_push .., by decide, fun rest => by rw [hzero]; rfl⟩
  · exact ⟨typeNumberQword, _, bytes_push_push .., by decide, read_memory 392 v.isLt⟩
  · exact ⟨typeNumberDword, _, bytes_push_push .., by decide, hdword (not_not.mp hqword)⟩
  · exact ⟨typeNumberByte, _, bytes_push_push .., by decide, read_memory 368 (toNat_lt hneg hbyte)⟩
  · exact ⟨typeNumberWord, _, bytes_push_push .., by decide, read_memory 376 (toNat_lt hneg hword)⟩
  · exact ⟨typeNumberDword, _, bytes_push_push .., by decide, hdword (not_not.mp hqword)⟩

/-! ## Values that are no tables -/

/-- The bytes are read as the value, whatever follows. -/
def Reads (bs : List UInt8) (v : Value Unit) : Prop :=
  ∀ n rest, (bs ++ rest).length < n → unpackOne plenty n (bs ++ rest) = .ok (v, rest)

/-- A type byte and what is read after it. -/
theorem reads_cons {t v : ℕ} {bs : List UInt8} {w : Value Unit} (ht : t < 8) (hv : v < 32)
    (h : ∀ n rest, (bs ++ rest).length < n →
      pushValue plenty (unpackOne plenty n) t v (bs ++ rest) = .ok (w, rest)) :
    Reads (combineType t v :: bs) w := by
  intro n rest hn
  obtain ⟨htype, hcookie⟩ := type_combineType ht hv
  obtain _ | n := n
  · exact absurd hn (Nat.not_lt_zero _)
  · rw [List.cons_append, unpackOne, htype, hcookie]
    rw [List.cons_append, List.length_cons] at hn
    exact h n rest (Nat.lt_of_succ_lt_succ hn)

/-- A nil, and the nil at the end of a table. -/
theorem nil_writes (wb : WriteBlock) :
    ∃ bs, wb.nil.bytes = wb.bytes ++ bs ∧ Reads bs .nil :=
  ⟨_, bytes_push .., reads_cons (t := 0) (v := 0) (by decide) (by decide) fun _ _ _ => rfl⟩

theorem boolean_writes (wb : WriteBlock) (b : Bool) :
    ∃ bs, (wb.boolean b).bytes = wb.bytes ++ bs ∧ Reads bs (.boolean b) := by
  cases b with
  | false => exact ⟨_, bytes_push .., reads_cons (by decide) (by decide) fun _ _ _ => rfl⟩
  | true => exact ⟨_, bytes_push .., reads_cons (by decide) (by decide) fun _ _ _ => rfl⟩

/-- The integer is written in one of five widths, and read in the same one. -/
theorem integer_writes (wb : WriteBlock) (x : BitVec 64) :
    ∃ bs, (wb.integer x).bytes = wb.bytes ++ bs ∧ Reads bs (.integer x) := by
  obtain ⟨cookie, bs, hbytes, hcookie, hget⟩ := bytes_integer wb x
  refine ⟨_, hbytes, reads_cons (by decide) (Nat.lt_trans hcookie (by decide)) fun n rest _ => ?_⟩
  have hpush : pushValue plenty (unpackOne plenty n) typeNumber cookie (bs ++ rest) =
      if cookie = typeNumberReal then
        readMemory 407 8 (bs ++ rest) >>= fun p => .ok (.real (BitVec.ofNat 64 p.1), p.2)
      else getInteger cookie (bs ++ rest) >>= fun p => .ok (.integer p.1, p.2) := rfl
  rw [hpush, if_neg (Nat.ne_of_lt hcookie), hget]
  rfl

theorem real_writes (wb : WriteBlock) (n : BitVec 64) :
    ∃ bs, (wb.real n).bytes = wb.bytes ++ bs ∧ Reads bs (.real n) := by
  refine ⟨_, bytes_push_push .., reads_cons (by decide) (by decide) fun m rest _ => ?_⟩
  have hpush : pushValue plenty (unpackOne plenty m) typeNumber typeNumberReal
      (memory 8 n.toNat ++ rest) = (do
        let (n, rb) ← readMemory 407 8 (memory 8 n.toNat ++ rest)
        return (.real (BitVec.ofNat 64 n), rb)) := rfl
  rw [hpush, readMemory_memory]
  exact congrArg (fun x => Except.ok (Value.real x, rest)) (ofNat_mod n.isLt)

/-- A pointer is its eight bytes. -/
theorem pointer_writes (wb : WriteBlock) (p : BitVec 64) :
    ∃ bs, (wb.pointer p).bytes = wb.bytes ++ bs ∧ Reads bs (.lightuserdata p) := by
  have hpush (m : ℕ) (rest : List UInt8) :
      pushValue plenty (unpackOne plenty m) typeUserdata 0 (memory 8 p.toNat ++ rest) =
        .ok (.lightuserdata p, rest) := by
    have hpush : pushValue plenty (unpackOne plenty m) typeUserdata 0
        (memory 8 p.toNat ++ rest) = (do
          let (n, rb) ← readMemory 417 8 (memory 8 p.toNat ++ rest)
          return (.lightuserdata (BitVec.ofNat 64 n), rb)) := rfl
    rw [hpush, readMemory_memory]
    exact congrArg (fun x => Except.ok (Value.lightuserdata x, rest)) (ofNat_mod p.isLt)
  exact ⟨_, bytes_push_push .., reads_cons (by decide) (by decide) fun m rest _ => hpush m rest⟩

theorem getBuffer_append {str : List UInt8} (h : str.length < 2 ^ 31) (rest : List UInt8) :
    getBuffer plenty str.length (str ++ rest) = .ok (str, rest) := by
  rw [getBuffer, if_neg (Nat.not_le_of_lt h), rbRead_append rfl]
  rfl

/-- A length below 2 GiB is the same as an `int`. -/
theorem int_of_lt {n : ℕ} (h : n < 2 ^ 31) : int n = n := by
  rw [int, BitVec.toInt_eq_toNat_cond, BitVec.toNat_ofNat, Nat.mod_eq_of_lt (by omega),
    if_pos (by omega)]

/-- A number below 32 has room in a type byte. -/
theorem lowBits_of_lt {n : ℕ} (h : n < maxCookie) : lowBits n = n := by
  have hlt : (n : ℤ) < 32 := Int.ofNat_lt.mpr h
  rw [lowBits, Int.emod_eq_of_lt (Int.natCast_nonneg n) hlt, Int.toNat_natCast]

/-- `wb_string`, of a string shorter than 2 GiB. -/
theorem string_of_lt (wb : WriteBlock) {str : List UInt8} (h : str.length < 2 ^ 31) :
    wb.string str =
      if str.length < maxCookie then
        if 0 < str.length then (wb.push [combineType typeShortString str.length]).push str
        else wb.push [combineType typeShortString str.length]
      else if str.length < 0x10000 then
        ((wb.push [combineType typeLongString 2]).push (memory 2 str.length)).push str
      else ((wb.push [combineType typeLongString 4]).push (memory 4 str.length)).push str := by
  rw [WriteBlock.string, int_of_lt h]
  dsimp only
  rw [Int.toNat_natCast, List.take_length]
  by_cases hshort : str.length < maxCookie
  · rw [if_pos hshort, if_pos (Int.ofNat_lt.mpr hshort), lowBits_of_lt hshort]
    exact if_congr Int.natCast_pos rfl rfl
  · rw [if_neg hshort, if_neg fun hlt => hshort (Int.ofNat_lt.mp hlt)]
    exact if_congr Int.ofNat_lt rfl rfl

/-- The length goes before the string: in the type byte, or in two or four bytes. -/
theorem string_writes (wb : WriteBlock) {str : List UInt8} (h : str.length < 2 ^ 31) :
    ∃ bs, (wb.string str).bytes = wb.bytes ++ bs ∧ Reads bs (.string str) := by
  rw [string_of_lt wb h]
  split_ifs with hshort hpos hword
  · refine ⟨_, bytes_push_push .., reads_cons (by decide) hshort fun n rest _ => ?_⟩
    have hpush : pushValue plenty (unpackOne plenty n) typeShortString str.length (str ++ rest) =
        getBuffer plenty str.length (str ++ rest) >>= fun p => .ok (.string p.1, p.2) := rfl
    rw [hpush, getBuffer_append h]
    rfl
  · refine ⟨_, bytes_push .., reads_cons (by decide) hshort fun n rest _ => ?_⟩
    have hempty : str = [] := List.eq_nil_of_length_eq_zero (Nat.eq_zero_of_not_pos hpos)
    subst hempty
    have hpush : pushValue plenty (unpackOne plenty n) typeShortString 0 rest =
        getBuffer plenty 0 rest >>= fun p => .ok (.string p.1, p.2) := rfl
    have hget : getBuffer plenty 0 rest = .ok ([], rest) := getBuffer_append h rest
    rw [List.length_nil, List.nil_append, hpush, hget]
    rfl
  · refine ⟨combineType typeLongString 2 :: (memory 2 str.length ++ str), ?_,
      reads_cons (by decide) (by decide) fun n rest _ => ?_⟩
    · rw [bytes_push, bytes_push_push, List.append_assoc, List.cons_append]
    · have hpush (rb : List UInt8) : pushValue plenty (unpackOne plenty n) typeLongString 2 rb =
          readMemory 493 2 rb >>= fun p =>
            getBuffer plenty p.1 p.2 >>= fun q => .ok (.string q.1, q.2) := rfl
      have hlen : str.length % 256 ^ 2 = str.length := Nat.mod_eq_of_lt hword
      rw [hpush, List.append_assoc, readMemory_memory, hlen]
      dsimp only [bind, Except.bind]
      rw [getBuffer_append h]
  · refine ⟨combineType typeLongString 4 :: (memory 4 str.length ++ str), ?_,
      reads_cons (by decide) (by decide) fun n rest _ => ?_⟩
    · rw [bytes_push, bytes_push_push, List.append_assoc, List.cons_append]
    · have hpush (rb : List UInt8) : pushValue plenty (unpackOne plenty n) typeLongString 4 rb =
          readMemory 504 4 rb >>= fun p =>
            getBuffer plenty p.1 p.2 >>= fun q => .ok (.string q.1, q.2) := rfl
      have hlen : str.length % 256 ^ 4 = str.length := Nat.mod_eq_of_lt (by omega)
      rw [hpush, List.append_assoc, readMemory_memory, hlen]
      dsimp only [bind, Except.bind]
      rw [getBuffer_append h]

/-- The size of an array, not negative, in the head of a table. -/
theorem table_natCast (wb : WriteBlock) (arraySize : ℕ) :
    wb.table arraySize =
      if arraySize ≥ maxCookie - 1 then
        (wb.push [combineType typeTable (maxCookie - 1)]).integer (BitVec.ofNat 64 arraySize)
      else wb.push [combineType typeTable arraySize] := by
  have hcast : (arraySize : ℤ) ≥ maxCookie - 1 ↔ arraySize ≥ maxCookie - 1 :=
    Int.ofNat_le (m := maxCookie - 1)
  rw [WriteBlock.table, BitVec.ofInt_natCast]
  by_cases hlong : arraySize ≥ maxCookie - 1
  · rw [if_pos hlong, if_pos (hcast.mpr hlong)]
  · have hlt : arraySize < maxCookie := Nat.lt_succ_of_lt (Nat.lt_of_not_le hlong)
    rw [if_neg hlong, if_neg (mt hcast.mp hlong), lowBits_of_lt hlt]

/-- The head of a table. -/
theorem table_writes (wb : WriteBlock) {arraySize : ℕ} (h : arraySize < 2 ^ 31) :
    ∃ cookie bs, (wb.table arraySize).bytes = wb.bytes ++ combineType typeTable cookie :: bs ∧
      cookie < maxCookie ∧
      ∀ rest, readArraySize cookie (bs ++ rest) = .ok (arraySize, rest) := by
  rw [table_natCast]
  split_ifs with hlong
  · obtain ⟨cookie, bs, hbytes, hcookie, hget⟩ :=
      bytes_integer (wb.push [combineType typeTable (maxCookie - 1)]) (BitVec.ofNat 64 arraySize)
    refine ⟨maxCookie - 1, combineType typeNumber cookie :: bs, ?_, by decide, fun rest => ?_⟩
    · rw [hbytes, bytes_push, List.append_assoc]
      rfl
    · obtain ⟨htype, hc⟩ := type_combineType (t := typeNumber) (by decide)
        (Nat.lt_trans hcookie (by decide))
      have hsize : ((BitVec.ofNat 64 arraySize).setWidth 32).toInt.toNat = arraySize := by
        rw [BitVec.toInt_eq_toNat_cond, BitVec.toNat_setWidth, BitVec.toNat_ofNat]
        split_ifs
        · omega
        · omega
      have hok : ¬ ((combineType typeNumber cookie).toNat % 8 ≠ typeNumber ∨
          (combineType typeNumber cookie).toNat >>> 3 = typeNumberReal) := by
        rw [htype, hc]
        exact not_or.mpr ⟨not_not.mpr rfl, Nat.ne_of_lt hcookie⟩
      rw [readArraySize.eq_def, if_pos rfl, List.cons_append]
      dsimp only
      rw [if_neg hok, hc, hget]
      exact congrArg (fun x => Except.ok (x, rest)) hsize
  · have hlt : arraySize < maxCookie - 1 := Nat.lt_of_not_le hlong
    refine ⟨arraySize, [], bytes_push .., Nat.lt_of_lt_of_le hlt (Nat.sub_le _ _), fun rest => ?_⟩
    rw [readArraySize.eq_def, if_neg (Nat.ne_of_lt hlt)]
    rfl

end SlgServer.LuaSeri
