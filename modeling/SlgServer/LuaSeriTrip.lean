import SlgServer.LuaSeriNeeds
import SlgServer.LuaSeriPack
import Mathlib.Data.List.TakeWhile
import Mathlib.Data.List.Nodup
import Mathlib.Data.List.Perm.Basic

/-!
# Unpacking what was packed

What `pack` accepts, `unpack` gives back (`packed_unpacks`): the same values in the same order, with
tables that have the same fields. In which order `lua_next` goes through the fields of a table,
and what `lua_rawlen` takes for its length, makes no difference, nor does it make one whether the
metamethod `__pairs` gives them.
-/

namespace SlgServer.LuaSeri

open Readers

variable {S T : Type}

/-! ## The same values -/

/-- The same value: tables have the same fields, in any order. -/
inductive Same : Value S → Value T → Prop where
  | nil : Same .nil .nil
  | boolean (b : Bool) : Same (.boolean b) (.boolean b)
  | integer (x : BitVec 64) : Same (.integer x) (.integer x)
  | real (n : BitVec 64) : Same (.real n) (.real n)
  | string (str : List UInt8) : Same (.string str) (.string str)
  | lightuserdata (p : BitVec 64) : Same (.lightuserdata p) (.lightuserdata p)
  | table {s : S} {t : T} {fields gs : List (Value S × Value S)} {hs : List (Value T × Value T)}
      (hperm : fields.Perm gs) (hkeys : List.Forall₂ (fun p q => Same p.1 q.1) gs hs)
      (hvalues : List.Forall₂ (fun p q => Same p.2 q.2) gs hs) :
      Same (.table s fields) (.table t hs)

/-- The length that `lua_rawlen` says a table has, if it is asked, is below 2^31. -/
def Walk.Small : Walk → Prop
  | .next rawlen => rawlen < 2 ^ 31
  | .pairs => True

/-- A value as Lua has it: the keys of a table are no nil, no NaN and no float that is an
integer, they are different, and the values of its fields are not nil. Strings are shorter than
2 GiB, and what is known of how to go through a table is `small`. -/
inductive Value.Ok (small : S → Prop) : Value S → Prop where
  | nil : Ok small .nil
  | boolean (b : Bool) : Ok small (.boolean b)
  | integer (x : BitVec 64) : Ok small (.integer x)
  | real (n : BitVec 64) : Ok small (.real n)
  | string {str : List UInt8} (h : str.length < 2 ^ 31) : Ok small (.string str)
  | lightuserdata (p : BitVec 64) : Ok small (.lightuserdata p)
  | table {s : S} {fields : List (Value S × Value S)} (hsize : small s)
      (hdistinct : fields.Pairwise fun p q => p.1.sameKey q.1 = false)
      (hkey : ∀ p ∈ fields, p.1.key = .ok p.1) (hnil : ∀ p ∈ fields, p.1.isNil = false)
      (hvalue : ∀ p ∈ fields, p.2.isNil = false) (hkeys : ∀ p ∈ fields, Ok small p.1)
      (hvalues : ∀ p ∈ fields, Ok small p.2) : Ok small (.table s fields)

theorem Same.isNil {v : Value S} {w : Value T} (h : Same v w) : w.isNil = v.isNil := by
  cases h <;> rfl

theorem Same.sameKey {v v' : Value S} {w w' : Value T} (h : Same v w) (h' : Same v' w') :
    w.sameKey w' = v.sameKey v' := by
  cases h <;> cases h' <;> rfl

theorem Same.key {v : Value S} {w : Value T} (h : Same v w) (hv : v.key = .ok v) :
    w.key = .ok w := by
  cases h with
  | real n =>
    rw [Value.key] at hv ⊢
    rcases htoInteger : toInteger n with _ | x
    · rw [htoInteger] at hv
      dsimp only at hv ⊢
      split_ifs at hv ⊢ with hnan
      rfl
    · rw [htoInteger] at hv
      cases hv
  | nil | boolean _ | integer _ | string _ | lightuserdata _ | table _ _ _ => rfl

theorem sameKey_comm (v w : Value S) : v.sameKey w = w.sameKey v := by
  cases v <;> cases w <;> first | rfl | exact Bool.beq_comm

/-- The key of a field is an integer. -/
theorem eq_integer_of_sameKey {k : Value S} {x : BitVec 64} (h : k.sameKey (.integer x) = true) :
    k = .integer x := by
  cases k with
  | integer y => exact congrArg Value.integer (eq_of_beq h)
  | nil | boolean _ | real _ | string _ | lightuserdata _ | table _ _ | other _ => cases h

/-! ## The array of a table -/

/-- The fields of a list, one after another. -/
def arrayFields : ℕ → List (Value Unit) → List (Value Unit × Value Unit)
  | _, [] => []
  | i, w :: ws =>
    if w.isNil then arrayFields (i + 1) ws
    else (.integer (BitVec.ofNat 64 i), w) :: arrayFields (i + 1) ws

/-- What the loop over the array makes of the values it reads. -/
def setArray : ℕ → List (Value Unit) → List (Value Unit × Value Unit) →
    List (Value Unit × Value Unit)
  | _, [], fields => fields
  | i, w :: ws, fields => setArray (i + 1) ws (setField fields (.integer (BitVec.ofNat 64 i)) w)

/-- A field with a new key. -/
theorem setField_new {fields : List (Value S × Value S)} {k v : Value S}
    (h : ∀ p ∈ fields, p.1.sameKey k = false) :
    setField fields k v = if v.isNil then fields else fields ++ [(k, v)] := by
  rw [setField]
  have hany : (fields.any fun p => p.1.sameKey k) = false :=
    List.any_eq_false.mpr fun p hp => Bool.eq_false_iff.mp (h p hp)
  have hfilter : (fields.filter fun p => !p.1.sameKey k) = fields :=
    List.filter_eq_self.mpr fun p hp => congrArg not (h p hp)
  rw [hany, hfilter, if_neg Bool.false_ne_true]

theorem setArray_eq {i : ℕ} {ws : List (Value Unit)} {fields : List (Value Unit × Value Unit)}
    (hlt : i + ws.length < 2 ^ 64)
    (h : ∀ p ∈ fields, ∀ j, i ≤ j → j < i + ws.length →
      p.1.sameKey (.integer (BitVec.ofNat 64 j)) = false) :
    setArray i ws fields = fields ++ arrayFields i ws := by
  induction ws generalizing i fields with
  | nil => exact (List.append_nil _).symm
  | cons w ws ih =>
    rw [List.length_cons] at hlt h
    have hnew := setField_new (v := w) fun p hp => h p hp i (Nat.le_refl i) (by omega)
    rw [setArray, arrayFields, hnew]
    split_ifs with hnil
    · exact ih (by omega) fun p hp j hj hlt => h p hp j (by omega) (by omega)
    · rw [ih (by omega), List.append_assoc]
      · rfl
      · intro p hp j hj hlt'
        rcases List.mem_append.mp hp with hp | hp
        · exact h p hp j (by omega) (by omega)
        · obtain rfl := List.mem_singleton.mp hp
          apply beq_eq_false_iff_ne.mpr
          intro heq
          have hnat := congrArg BitVec.toNat heq
          rw [BitVec.toNat_ofNat, BitVec.toNat_ofNat] at hnat
          omega

/-- The fields of the array, in their order. -/
def arrayPart (fields : List (Value S × Value S)) (is : List ℕ) : List (Value S × Value S) :=
  is.filterMap fun i => fields.find? fun p => p.1.sameKey (.integer (BitVec.ofNat 64 i))

/-- A key is there once. -/
theorem find?_of_mem {fields : List (Value S × Value S)} {x : BitVec 64} {v : Value S}
    (hdistinct : fields.Pairwise fun p q => p.1.sameKey q.1 = false)
    (h : (.integer x, v) ∈ fields) :
    (fields.find? fun p => p.1.sameKey (.integer x)) = some (.integer x, v) := by
  induction fields with
  | nil => exact absurd h List.not_mem_nil
  | cons p fields ih =>
    obtain ⟨hp, hdistinct⟩ := List.pairwise_cons.mp hdistinct
    rcases List.mem_cons.mp h with rfl | h
    · exact List.find?_cons_of_pos (beq_self_eq_true x)
    · have hneg : p.1.sameKey (.integer x) = false := hp _ h
      rw [List.find?_cons, hneg]
      exact ih hdistinct h

theorem toInt_ofNat {i : ℕ} (h : i < 2 ^ 32) : (BitVec.ofNat 64 i).toInt = i := by
  rw [BitVec.toInt_eq_toNat_cond, BitVec.toNat_ofNat]
  split_ifs
  · omega
  · omega

theorem ofNat_injective {i j : ℕ} (hi : i < 2 ^ 32) (hj : j < 2 ^ 32)
    (h : BitVec.ofNat 64 i = BitVec.ofNat 64 j) : i = j := by
  have hint := congrArg BitVec.toInt h
  rw [toInt_ofNat hi, toInt_ofNat hj] at hint
  omega

/-- A field of the array is found under its number. -/
theorem eq_of_find? {fields : List (Value S × Value S)} {i : ℕ} {p : Value S × Value S}
    (h : (fields.find? fun p => p.1.sameKey (.integer (BitVec.ofNat 64 i))) = some p) :
    p ∈ fields ∧ p.1 = .integer (BitVec.ofNat 64 i) :=
  have hkey : p.1.sameKey (.integer (BitVec.ofNat 64 i)) = true := by
    simpa using List.find?_some h
  ⟨List.mem_of_find?_eq_some h, eq_integer_of_sameKey hkey⟩

theorem mem_arrayPart {fields : List (Value S × Value S)} {size : ℕ} (hsize : size < 2 ^ 31)
    (hdistinct : fields.Pairwise fun p q => p.1.sameKey q.1 = false) (p : Value S × Value S) :
    p ∈ (fields.filter fun p => p.1.inArray size) ↔ p ∈ arrayPart fields (List.range' 1 size) := by
  rw [List.mem_filter, arrayPart, List.mem_filterMap]
  constructor
  · rintro ⟨hmem, hin⟩
    obtain ⟨k, v⟩ := p
    cases k with
    | integer x =>
      obtain ⟨hpos, hle⟩ := Bool.and_eq_true_iff.mp hin
      have hpos' : 0 < x.toInt := of_decide_eq_true hpos
      have hle' : x.toInt ≤ size := of_decide_eq_true hle
      have hcond := BitVec.toInt_eq_toNat_cond x
      have hx : BitVec.ofNat 64 x.toNat = x := by rw [BitVec.ofNat_toNat, BitVec.setWidth_eq]
      have hlt := x.isLt
      refine ⟨x.toNat, List.mem_range'_1.mpr ?_, ?_⟩
      · split_ifs at hcond
        · omega
        · omega
      · rw [hx]
        exact find?_of_mem hdistinct hmem
    | nil | boolean _ | real _ | string _ | lightuserdata _ | table _ _ | other _ => cases hin
  · rintro ⟨i, hi, hfind⟩
    obtain ⟨hmem, hkey⟩ := eq_of_find? hfind
    have hi' := List.mem_range'_1.mp hi
    refine ⟨hmem, ?_⟩
    rw [hkey]
    apply Bool.and_eq_true_iff.mpr
    rw [toInt_ofNat (by omega)]
    exact ⟨decide_eq_true (by omega), decide_eq_true (by omega)⟩

/-- The fields of the array and the others are all the fields. -/
theorem perm_arrayPart {fields : List (Value S × Value S)} {size : ℕ} (hsize : size < 2 ^ 31)
    (hdistinct : fields.Pairwise fun p q => p.1.sameKey q.1 = false) :
    fields.Perm (arrayPart fields (List.range' 1 size) ++
      fields.filter fun p => !p.1.inArray size) := by
  have hself {p : Value S × Value S} (hp : p.1.inArray size = true) : p.1.sameKey p.1 = true := by
    obtain ⟨k, v⟩ := p
    cases k with
    | integer x => exact beq_self_eq_true x
    | nil | boolean _ | real _ | string _ | lightuserdata _ | table _ _ | other _ => cases hp
  have hperm : (fields.filter fun p => p.1.inArray size).Perm
      (arrayPart fields (List.range' 1 size)) := by
    apply (List.perm_ext_iff_of_nodup ?_ ?_).mpr (mem_arrayPart hsize hdistinct)
    · apply (hdistinct.filter _).imp_of_mem
      rintro p q hp - hpq rfl
      rw [hself (List.mem_filter.mp hp).2] at hpq
      cases hpq
    · apply List.pairwise_filterMap.mpr
      apply (List.pairwise_lt_range' 1).imp_of_mem
      rintro i j hi hj hlt p hp q hq rfl
      have hi' := List.mem_range'_1.mp hi
      have hj' := List.mem_range'_1.mp hj
      have hkey := (eq_of_find? hp).2.symm.trans (eq_of_find? hq).2
      have heq := ofNat_injective (by omega) (by omega) (Value.integer.inj hkey)
      omega
  exact (List.filter_append_perm _ fields).symm.trans (hperm.append_right _)

/-- What is read of the array is what it has. -/
theorem same_arrayFields {fields : List (Value S × Value S)}
    (hvalue : ∀ p ∈ fields, p.2.isNil = false) {i m : ℕ} {ws : List (Value Unit)}
    (h : List.Forall₂ (fun j w => Same (rawgeti fields j) w) (List.range' i m) ws) :
    List.Forall₂ (fun p q => Same p.1 q.1) (arrayPart fields (List.range' i m)) (arrayFields i ws) ∧
      List.Forall₂ (fun p q => Same p.2 q.2) (arrayPart fields (List.range' i m))
        (arrayFields i ws) := by
  induction m generalizing i ws with
  | zero =>
    cases h
    exact ⟨.nil, .nil⟩
  | succ m ih =>
    rw [List.range'_succ] at h ⊢
    cases h with
    | @cons _ w _ ws hw hws =>
      obtain ⟨hkeys, hvalues⟩ := ih hws
      rw [rawgeti] at hw
      rw [arrayPart, List.filterMap_cons, arrayFields]
      rcases hfind : fields.find? fun p => p.1.sameKey (.integer (BitVec.ofNat 64 i)) with
        _ | ⟨k, v⟩
      · rw [hfind] at hw
        have hnil : w.isNil = true := hw.isNil
        rw [hfind, if_pos hnil]
        exact ⟨hkeys, hvalues⟩
      · rw [hfind] at hw
        obtain ⟨hmem, hkey⟩ := eq_of_find? hfind
        have hnil : ¬ w.isNil = true := by
          rw [hw.isNil, hvalue _ hmem]
          exact Bool.false_ne_true
        obtain rfl : k = .integer (BitVec.ofNat 64 i) := hkey
        rw [hfind, if_neg hnil]
        exact ⟨.cons (.integer _) hkeys, .cons hw hvalues⟩

/-! ## Tables -/

theorem Reads.pos {bs : List UInt8} {w : Value Unit} (h : Reads bs w) : 0 < bs.length := by
  cases bs with
  | nil =>
    have hread : unpackOne plenty 1 [] = .ok (w, []) := h 1 [] (Nat.lt_succ_self 0)
    cases hread
  | cons b bs => exact Nat.zero_lt_succ _

/-- What `pack_one` writes of a value can be read. -/
def Writes (one : Value Walk → WriteBlock → Except PackError WriteBlock) : Prop :=
  ∀ v wb wb', v.Ok Walk.Small → one v wb = .ok wb' →
    ∃ bs w, wb'.bytes = wb.bytes ++ bs ∧ Same v w ∧ Reads bs w

variable {one : Value Walk → WriteBlock → Except PackError WriteBlock}

theorem rawgeti_ok {small : S → Prop} {fields : List (Value S × Value S)}
    (hvalues : ∀ p ∈ fields, p.2.Ok small) (i : ℕ) : (rawgeti fields i).Ok small := by
  rw [rawgeti]
  split
  · exact hvalues _ (List.mem_of_find?_eq_some ‹_›)
  · exact .nil

/-- `wb_table_array` and the loop over the array in `unpack_table`. -/
theorem packArray_writes (hone : Writes one) {fields : List (Value Walk × Value Walk)}
    (hvalues : ∀ p ∈ fields, p.2.Ok Walk.Small) {i m : ℕ} {wb wb' : WriteBlock}
    (h : (List.range' i m).foldlM (fun wb i => one (rawgeti fields i) wb) wb = .ok wb') :
    ∃ bs ws, wb'.bytes = wb.bytes ++ bs ∧
      List.Forall₂ (fun j w => Same (rawgeti fields j) w) (List.range' i m) ws ∧
      ∀ n rest acc, (bs ++ rest).length < n →
        unpackArray plenty (unpackOne plenty n) m i acc (bs ++ rest) =
          .ok (setArray i ws acc, rest) := by
  induction m generalizing i wb with
  | zero =>
    obtain rfl := Except.ok.inj h
    exact ⟨[], [], (List.append_nil _).symm, .nil, fun _ _ _ _ => rfl⟩
  | succ m ih =>
    rw [List.range'_succ, List.foldlM_cons] at h
    obtain ⟨wb₁, hfirst, h⟩ := bind_eq_ok.mp h
    obtain ⟨bs, w, hbytes, hsame, hreads⟩ := hone _ _ _ (rawgeti_ok hvalues i) hfirst
    obtain ⟨bss, ws, hbytess, hsames, hread⟩ := ih h
    refine ⟨bs ++ bss, w :: ws, ?_, .cons hsame hsames, fun n rest acc hn => ?_⟩
    · rw [hbytess, hbytes, List.append_assoc]
    · rw [List.append_assoc] at hn ⊢
      rw [unpackArray, hreads n _ hn]
      apply hread n rest
      rw [List.length_append] at hn
      omega

/-- A field is added to a table that was just made. -/
theorem rawset_new {fields : List (Value S × Value S)} {k v : Value S} (hkey : k.key = .ok k)
    (hvalue : v.isNil = false) (h : ∀ p ∈ fields, p.1.sameKey k = false) :
    rawset fields k v = .ok (fields ++ [(k, v)]) := by
  rw [rawset, hkey]
  apply congrArg Except.ok
  dsimp only
  rw [setField_new h, hvalue, if_neg Bool.false_ne_true]

/-- `wb_table_hash` and the loop over the other fields in `unpack_table`. -/
theorem packHash_writes (hone : Writes one) {size : ℕ} {fields : List (Value Walk × Value Walk)}
    (hkey : ∀ p ∈ fields, p.1.key = .ok p.1) (hnil : ∀ p ∈ fields, p.1.isNil = false)
    (hvalue : ∀ p ∈ fields, p.2.isNil = false) (hkeys : ∀ p ∈ fields, p.1.Ok Walk.Small)
    (hvalues : ∀ p ∈ fields, p.2.Ok Walk.Small) {wb wb' : WriteBlock}
    (h : packHash one size fields wb = .ok wb') :
    ∃ bs hs, wb'.bytes = wb.bytes ++ bs ∧ hs.length ≤ bs.length ∧
      List.Forall₂ (fun p q => Same p.1 q.1) (fields.filter fun p => !p.1.inArray size) hs ∧
      List.Forall₂ (fun p q => Same p.2 q.2) (fields.filter fun p => !p.1.inArray size) hs ∧
      ∀ n m acc rest, (bs ++ rest).length < n → hs.length ≤ m →
        (acc ++ hs).Pairwise (fun p q => p.1.sameKey q.1 = false) →
        unpackHash plenty (unpackOne plenty n) m acc (bs ++ rest) =
          unpackHash plenty (unpackOne plenty n) (m - hs.length) (acc ++ hs) rest := by
  -- over the fields in the order of `lua_next`, with what was read so far in `acc`
  induction fields generalizing wb with
  | nil =>
    obtain rfl := Except.ok.inj h
    refine ⟨[], [], (List.append_nil _).symm, Nat.le_refl 0, .nil, .nil, fun _ m acc _ _ _ _ => ?_⟩
    rw [List.append_nil]
    rfl
  | cons p fields ih =>
    have ih' {wb : WriteBlock} (h : packHash one size fields wb = .ok wb') :=
      ih (fun q hq => hkey q (.tail _ hq)) (fun q hq => hnil q (.tail _ hq))
        (fun q hq => hvalue q (.tail _ hq)) (fun q hq => hkeys q (.tail _ hq))
        (fun q hq => hvalues q (.tail _ hq)) h
    obtain ⟨k, v⟩ := p
    rw [packHash, List.foldlM_cons] at h
    dsimp only at h
    split_ifs at h with hin
    -- the field went out with the array
    · have hskip : (((k, v) :: fields).filter fun p => !p.1.inArray size) =
          fields.filter fun p => !p.1.inArray size := by
        rw [List.filter_cons, hin]
        rfl
      rw [hskip]
      exact ih' h
    -- the key and the value are written one after the other
    · have hkeep : (((k, v) :: fields).filter fun p => !p.1.inArray size) =
          (k, v) :: fields.filter fun p => !p.1.inArray size := by
        rw [List.filter_cons, eq_false_of_ne_true hin]
        rfl
      rw [hkeep]
      obtain ⟨wb₂, hfield, h⟩ := bind_eq_ok.mp h
      obtain ⟨wb₁, hfirst, hsecond⟩ := bind_eq_ok.mp hfield
      obtain ⟨bk, k', hbytesk, hsamek, hreadk⟩ := hone _ _ _ (hkeys _ (.head _)) hfirst
      obtain ⟨bv, v', hbytesv, hsamev, hreadv⟩ := hone _ _ _ (hvalues _ (.head _)) hsecond
      obtain ⟨bs, hs, hbytes, hlen, hsamesk, hsamesv, hread⟩ := ih' h
      refine ⟨bk ++ (bv ++ bs), (k', v') :: hs, ?_, ?_, .cons hsamek hsamesk, .cons hsamev hsamesv,
        fun n m acc rest hn hm hdistinct => ?_⟩
      · rw [hbytes, hbytesv, hbytesk, List.append_assoc, List.append_assoc]
      -- a pair takes at least a byte, so as many rounds as bytes are enough
      · have hpos := hreadk.pos
        rw [List.length_append, List.length_append, List.length_cons]
        omega
      · obtain _ | m := m
        · exact absurd hm (Nat.not_succ_le_zero _)
        · have hkeyk : k'.key = .ok k' := hsamek.key (hkey _ (.head _))
          have hnilk : k'.isNil = false := hsamek.isNil.trans (hnil _ (.head _))
          have hnilv : v'.isNil = false := hsamev.isNil.trans (hvalue _ (.head _))
          -- no key read so far is the same, so `lua_rawset` adds a field
          have hnew : ∀ p ∈ acc, p.1.sameKey k' = false := fun p hp =>
            (List.pairwise_append.mp hdistinct).2.2 p hp _ (.head _)
          rw [List.append_assoc, List.append_assoc] at hn ⊢
          have hlenk := hreadk.pos
          have hn' : (bv ++ (bs ++ rest)).length < n := by
            rw [List.length_append] at hn
            omega
          have hn'' : (bs ++ rest).length < n := by
            rw [List.length_append] at hn'
            omega
          rw [unpackHash, hreadk n _ hn]
          dsimp only [bind, Except.bind]
          rw [hnilk, if_neg Bool.false_ne_true, hreadv n _ hn']
          dsimp only
          rw [rawset_new hkeyk hnilv hnew]
          dsimp only
          rw [hread n m _ rest hn'' (Nat.le_of_succ_le_succ hm), List.append_assoc,
            List.length_cons, Nat.succ_sub_succ]
          · rfl
          · rw [List.append_assoc]
            exact hdistinct

theorem exists_of_mem {gs : List (Value S × Value S)} {hs : List (Value T × Value T)}
    (h : List.Forall₂ (fun p q => Same p.1 q.1) gs hs) {q : Value T × Value T} (hq : q ∈ hs) :
    ∃ p ∈ gs, Same p.1 q.1 := by
  induction h with
  | nil => exact absurd hq List.not_mem_nil
  | @cons p _ _ _ hp _ ih =>
    rcases List.mem_cons.mp hq with rfl | hq
    · exact ⟨p, .head _, hp⟩
    · obtain ⟨p', hp', hsame⟩ := ih hq
      exact ⟨p', .tail _ hp', hsame⟩

/-- Different keys stay different. -/
theorem pairwise_same {gs : List (Value S × Value S)} {hs : List (Value T × Value T)}
    (h : List.Forall₂ (fun p q => Same p.1 q.1) gs hs)
    (hdistinct : gs.Pairwise fun p q => p.1.sameKey q.1 = false) :
    hs.Pairwise fun p q => p.1.sameKey q.1 = false := by
  induction h with
  | nil => exact .nil
  | cons hp hrest ih =>
    obtain ⟨hhead, htail⟩ := List.pairwise_cons.mp hdistinct
    refine .cons (fun q hq => ?_) (ih htail)
    obtain ⟨p', hp', hsame⟩ := exists_of_mem hrest hq
    exact (hp.sameKey hsame).trans (hhead p' hp')

/-- Lua has room and memory for a table. -/
theorem unpackTable_plenty (one : List UInt8 → Except Error (Value Unit × List UInt8))
    (arraySize : ℕ) (rb : List UInt8) :
    unpackTable plenty one arraySize rb =
      readArraySize arraySize rb >>= fun p => unpackArray plenty one p.1 1 [] p.2 >>= fun p =>
        unpackHash plenty one (p.2.length + 1) p.1 p.2 >>= fun p => .ok (.table () p.1, p.2) := rfl

/-- A table is written as an array of some size and the other fields, and `unpack_table` reads
it. -/
theorem table_trip (hone : Writes one) {walk : Walk} {fields : List (Value Walk × Value Walk)}
    (hok : (Value.table walk fields).Ok Walk.Small) {size : ℕ} (hsize : size < 2 ^ 31)
    {wb wb₁ wb₂ : WriteBlock} (harray : packArray one size fields (wb.table size) = .ok wb₁)
    (hhash : packHash one size fields wb₁ = .ok wb₂) :
    ∃ bs w, wb₂.nil.bytes = wb.bytes ++ bs ∧ Same (.table walk fields) w ∧ Reads bs w := by
  rw [packArray, Int.toNat_natCast] at harray
  cases hok with
  | table _ hdistinct hkey hnil hvalue hkeys hvalues =>
    obtain ⟨cookie, bh, hbytesh, hcookie, hread⟩ := table_writes wb hsize
    obtain ⟨ba, ws, hbytesa, hsame, hreada⟩ := packArray_writes hone hvalues harray
    obtain ⟨bs, hs, hbytes, hlen, hsamesk, hsamesv, hreads⟩ :=
      packHash_writes hone hkey hnil hvalue hkeys hvalues hhash
    obtain ⟨bn, hbytesn, hreadn⟩ := nil_writes wb₂
    obtain ⟨harrayk, harrayv⟩ := same_arrayFields hvalue hsame
    -- the fields come back in another order, those of the array first
    have hperm := perm_arrayPart hsize hdistinct
    have hk := List.rel_append harrayk hsamesk
    have hv := List.rel_append harrayv hsamesv
    have hlength : ws.length = size := by
      rw [← hsame.length_eq, List.length_range']
    have hset : setArray 1 ws [] = arrayFields 1 ws :=
      setArray_eq (by omega) fun p hp => absurd hp List.not_mem_nil
    have hdistinct' : (arrayFields 1 ws ++ hs).Pairwise fun p q => p.1.sameKey q.1 = false :=
      pairwise_same hk (hperm.pairwise hdistinct fun h => (sameKey_comm _ _).trans h)
    refine ⟨combineType typeTable cookie :: (bh ++ (ba ++ (bs ++ bn))),
      .table () (arrayFields 1 ws ++ hs), ?_, .table hperm hk hv,
      reads_cons (by decide) hcookie fun n rest hn => ?_⟩
    · rw [hbytesn, hbytes, hbytesa, hbytesh]
      simp only [List.append_assoc, List.cons_append]
    · have hpush (rb : List UInt8) :
          pushValue plenty (unpackOne plenty n) typeTable cookie rb =
            unpackTable plenty (unpackOne plenty n) cookie rb := rfl
      simp only [List.append_assoc, List.length_append] at hn ⊢
      rw [hpush, unpackTable_plenty, hread]
      dsimp only [bind, Except.bind]
      rw [hreada n _ _ (by simp only [List.length_append]; omega), hset]
      dsimp only
      rw [hreads n _ _ _ (by simp only [List.length_append]; omega)
        (by simp only [List.length_append]; omega) hdistinct']
      -- a round is left for the nil that ends the fields
      obtain ⟨m, hm⟩ : ∃ m, (bs ++ (bn ++ rest)).length + 1 - hs.length = m + 1 :=
        ⟨(bs ++ (bn ++ rest)).length - hs.length, by simp only [List.length_append]; omega⟩
      rw [hm, unpackHash, hreadn n rest (by simp only [List.length_append]; omega)]
      rfl

/-- `wb_table_metapairs` writes what `wb_table_hash` does if there is no array, for no key is
nil. -/
theorem packPairs_eq {fields : List (Value Walk × Value Walk)}
    (hnil : ∀ p ∈ fields, p.1.isNil = false) (wb : WriteBlock) :
    packPairs one fields wb = packHash one 0 fields wb := by
  have hall : (fields.takeWhile fun p => !p.1.isNil) = fields :=
    List.takeWhile_eq_self_iff.mpr fun p hp => congrArg not (hnil p hp)
  have hnone (k : Value Walk) : k.inArray 0 = false := by
    cases k with
    | integer x =>
      apply Bool.eq_false_iff.mpr
      intro hin
      obtain ⟨hpos, hle⟩ := Bool.and_eq_true_iff.mp hin
      exact absurd (of_decide_eq_true hle) (Int.not_le.mpr (of_decide_eq_true hpos))
    | nil | boolean _ | real _ | string _ | lightuserdata _ | table _ _ | other _ => rfl
  rw [packPairs, packHash, hall]
  congr 1
  funext wb ⟨k, v⟩
  dsimp only
  rw [hnone k, if_neg Bool.false_ne_true]

/-- `pack_one` and `unpack_one`. -/
theorem packOne_writes (left : ℕ) : Writes (packOne left) := by
  -- the induction is on the levels left, one less in a table
  induction left with
  | zero =>
    intro v wb wb' _ h
    cases h
  | succ left ih =>
    intro v wb wb' hok h
    cases v with
    | nil =>
      obtain rfl := Except.ok.inj h
      obtain ⟨bs, hbytes, hreads⟩ := nil_writes wb
      exact ⟨bs, _, hbytes, .nil, hreads⟩
    | boolean b =>
      obtain rfl := Except.ok.inj h
      obtain ⟨bs, hbytes, hreads⟩ := boolean_writes wb b
      exact ⟨bs, _, hbytes, .boolean b, hreads⟩
    | integer x =>
      obtain rfl := Except.ok.inj h
      obtain ⟨bs, hbytes, hreads⟩ := integer_writes wb x
      exact ⟨bs, _, hbytes, .integer x, hreads⟩
    | real n =>
      obtain rfl := Except.ok.inj h
      obtain ⟨bs, hbytes, hreads⟩ := real_writes wb n
      exact ⟨bs, _, hbytes, .real n, hreads⟩
    | string str =>
      obtain rfl := Except.ok.inj h
      cases hok with
      | string hlen =>
        obtain ⟨bs, hbytes, hreads⟩ := string_writes wb hlen
        exact ⟨bs, _, hbytes, .string str, hreads⟩
    | lightuserdata p =>
      obtain rfl := Except.ok.inj h
      obtain ⟨bs, hbytes, hreads⟩ := pointer_writes wb p
      exact ⟨bs, _, hbytes, .lightuserdata p, hreads⟩
    | table walk fields =>
      cases walk with
      | next rawlen =>
        have hsize : rawlen < 2 ^ 31 := by
          cases hok with
          | table hsize => exact hsize
        rw [packOne.eq_def] at h
        dsimp only at h
        rw [int_of_lt hsize] at h
        obtain ⟨wb₁, harray, h⟩ := bind_eq_ok.mp h
        obtain ⟨wb₂, hhash, h⟩ := bind_eq_ok.mp h
        obtain rfl := Except.ok.inj h
        exact table_trip ih hok hsize harray hhash
      -- `wb_table_metapairs` writes no array, and every pair as a field
      | pairs =>
        have hnil : ∀ p ∈ fields, p.1.isNil = false := by
          cases hok with
          | table _ _ _ hnil => exact hnil
        rw [packOne.eq_def] at h
        dsimp only at h
        rw [packPairs_eq hnil] at h
        obtain ⟨wb₂, hhash, h⟩ := bind_eq_ok.mp h
        obtain rfl := Except.ok.inj h
        exact table_trip ih hok (Nat.two_pow_pos 31) rfl hhash
    | other typename => cases h

/-! ## Messages -/

/-- Lua has room on its stack for another value. -/
theorem unpackLoop_plenty (n i : ℕ) (t : UInt8) (rb : List UInt8) :
    unpackLoop plenty (n + 1) i (t :: rb) =
      pushValue plenty (unpackOne plenty (rb.length + 1)) (t.toNat % 8) (t.toNat >>> 3) rb >>=
        fun p => (unpackLoop plenty n (i + 1) p.2).map fun vs => p.1 :: vs := by
  rw [unpackLoop]
  exact ite_self _

theorem unpackLoop_plenty_nil (n i : ℕ) : unpackLoop plenty n i [] = .ok [] := by
  rw [unpackLoop]
  exact ite_self _

theorem unpackLoop_append {n i : ℕ} {bs rest : List UInt8} {w : Value Unit} (h : Reads bs w)
    (hn : (bs ++ rest).length ≤ n) :
    ∃ m, rest.length ≤ m ∧ unpackLoop plenty n i (bs ++ rest) =
      (unpackLoop plenty m (i + 1) rest).map fun ws => w :: ws := by
  obtain _ | ⟨b, bs⟩ := bs
  · exact absurd h.pos (Nat.lt_irrefl 0)
  · obtain _ | n := n
    · cases hn
    · have hread := h ((bs ++ rest).length + 2) rest (Nat.lt_succ_self _)
      rw [List.cons_append, List.length_cons] at hn
      rw [List.cons_append, unpackOne] at hread
      refine ⟨n, ?_, ?_⟩
      · rw [List.length_append] at hn
        omega
      · rw [List.cons_append, unpackLoop_plenty, hread]
        rfl

theorem packFrom_writes {vs : List (Value Walk)} (hok : ∀ v ∈ vs, v.Ok Walk.Small)
    {wb wb' : WriteBlock} (h : packFrom vs wb = .ok wb') :
    ∃ bs ws, wb'.bytes = wb.bytes ++ bs ∧ List.Forall₂ Same vs ws ∧
      ∀ n i, bs.length ≤ n → unpackLoop plenty n i bs = .ok ws := by
  induction vs generalizing wb with
  | nil =>
    obtain rfl := Except.ok.inj h
    exact ⟨[], [], (List.append_nil _).symm, .nil, fun n i _ => unpackLoop_plenty_nil n i⟩
  | cons v vs ih =>
    rw [packFrom, List.foldlM_cons] at h
    obtain ⟨wb₁, hfirst, h⟩ := bind_eq_ok.mp h
    obtain ⟨bv, w, hbytesv, hsame, hreads⟩ := packOne_writes _ _ _ _ (hok v (.head _)) hfirst
    obtain ⟨bs, ws, hbytes, hsames, hread⟩ := ih (fun v hv => hok v (.tail _ hv)) h
    refine ⟨bv ++ bs, w :: ws, ?_, .cons hsame hsames, fun n i hn => ?_⟩
    · rw [hbytes, hbytesv, List.append_assoc]
    · obtain ⟨m, hm, hloop⟩ := unpackLoop_append (i := i) hreads hn
      rw [hloop, hread m (i + 1) hm]
      rfl

/-- A Lua that has whatever is needed unpacks what was packed. -/
theorem unpack_plenty_of_pack {vs : List (Value Walk)} (hok : ∀ v ∈ vs, v.Ok Walk.Small)
    {bytes : List UInt8} (h : pack vs = .ok bytes) :
    ∃ ws, List.Forall₂ Same vs ws ∧ unpack plenty bytes = .ok ws := by
  obtain ⟨wb, hpack, h⟩ := bind_eq_ok.mp h
  split_ifs at h
  obtain rfl := Except.ok.inj h
  obtain ⟨bs, ws, hbytes, hsame, hread⟩ := packFrom_writes hok hpack
  have hseri : seri (wb.blocks ++ [wb.buffer]) wb.len = bs := (seri_eq wb).trans hbytes
  refine ⟨ws, hsame, ?_⟩
  rw [hseri]
  exact hread _ 0 (Nat.le_refl _)

/-- A table with an array of two fields and another table within it, which has `__pairs`, and
nil. -/
def message : List (Value Walk) :=
  [.table (.next 2) [(.string [120], .table .pairs [(.integer 1, .integer 300)]),
    (.integer 2, .real 7), (.integer 1, .integer (-5))], .nil]

theorem message_ok : ∀ v ∈ message, v.Ok Walk.Small := by
  have hinner : (Value.table .pairs [(.integer 1, .integer 300)]).Ok Walk.Small := by
    refine .table trivial (by simp) ?_ ?_ ?_ ?_ ?_
    · simp [Value.key]
    · simp [Value.isNil]
    · simp [Value.isNil]
    · simpa using Value.Ok.integer 1
    · simpa using Value.Ok.integer 300
  have houter : (Value.table (.next 2)
      [(.string [120], .table .pairs [(.integer 1, .integer 300)]), (.integer 2, .real 7),
        (.integer 1, .integer (-5))]).Ok Walk.Small := by
    have hsmall : (Walk.next 2).Small := Nat.lt_of_sub_eq_succ rfl
    refine .table hsmall (by simp [Value.sameKey]) ?_ ?_ ?_ ?_ ?_
    · simp [Value.key]
    · simp [Value.isNil]
    · simp [Value.isNil]
    · simpa using ⟨Value.Ok.string (by decide), Value.Ok.integer 2, Value.Ok.integer 1⟩
    · simpa using ⟨hinner, Value.Ok.real 7, Value.Ok.integer (-5)⟩
  simpa [message] using ⟨houter, Value.Ok.nil⟩

end SlgServer.LuaSeri
