import SlgServer.LuaSeriTrip
import SlgServer.Readers

/-!
# What unpacking accepts

`unpack` reads one value after another, and looks at nothing but the bytes of this value. So
messages can be joined, and a message of one value that was cut off is refused
(`cut_off_refused`). What is accepted is well formed, and every message is either accepted or
refused with an error of the source (`accepted_ok`). All this is first proved of a Lua that has
whatever is needed, and then of any Lua.
-/

namespace SlgServer.LuaSeri

open Readers

/-! ## What follows does not matter -/

/-- What was read is read again if more follows. -/
theorem rbRead_more {sz : ℕ} {rb bs rest : List UInt8} (h : rbRead sz rb = some (bs, rest)) :
    rest.length ≤ rb.length ∧ ∀ more, rbRead sz (rb ++ more) = some (bs, rest ++ more) := by
  rw [rbRead] at h
  split_ifs at h with hlen
  obtain ⟨rfl, rfl⟩ := Prod.mk.inj (Option.some.inj h)
  have hle : sz ≤ rb.length := Nat.le_of_not_lt hlen
  refine ⟨by rw [List.length_drop]; exact Nat.sub_le _ _, fun more => ?_⟩
  have hlen' : ¬ (rb ++ more).length < sz := by rw [List.length_append]; omega
  rw [rbRead, if_neg hlen', List.take_append_of_le_length hle, List.drop_append_of_le_length hle]

/-- A number takes its bytes, and no others matter. -/
theorem extends_readMemory (line sz : ℕ) : Extends (readMemory line sz) (readMemory line sz) := by
  intro rb n rest h
  rw [readMemory] at h
  rcases hread : rbRead sz rb with _ | ⟨bs, rest'⟩
  · rw [hread] at h
    cases h
  · rw [hread] at h
    obtain ⟨rfl, rfl⟩ := Prod.mk.inj (Except.ok.inj h)
    obtain ⟨hle, hmore⟩ := rbRead_more hread
    refine ⟨hle, fun more => ?_⟩
    rw [readMemory, hmore more]

/-- A number is read, and something is made of it. -/
theorem extends_read {α : Type} (line sz : ℕ) (F : ℕ → α) :
    Extends (fun rb => readMemory line sz rb >>= fun p => .ok (F p.1, p.2))
      fun rb => readMemory line sz rb >>= fun p => .ok (F p.1, p.2) :=
  .bind (extends_readMemory line sz) fun _ => .ok _

/-- An integer takes the bytes that its cookie says. -/
theorem extends_getInteger (cookie : ℕ) : Extends (getInteger cookie) (getInteger cookie) :=
  .ite (.ok 0) (.ite (extends_read 368 1 (BitVec.ofNat 64)) (.ite
    (extends_read 376 2 (BitVec.ofNat 64)) (.ite
    (extends_read 384 4 fun n => (BitVec.ofNat 32 n).signExtend 64) (.ite
    (extends_read 392 8 (BitVec.ofNat 64)) (.error _ _)))))

/-- A string takes its length, whatever follows. -/
theorem extends_getBuffer (len : ℕ) : Extends (getBuffer plenty len) (getBuffer plenty len) := by
  refine Extends.ite (.error (fun _ => Error.tooBig) fun _ => .error Error.tooBig) ?_
  intro rb n rest h
  dsimp only at h
  rcases hread : rbRead len rb with _ | ⟨bs, rest'⟩
  · rw [hread] at h
    cases h
  · rw [hread] at h
    obtain ⟨rfl, rfl⟩ := Prod.mk.inj (Except.ok.inj h)
    obtain ⟨hle, hmore⟩ := rbRead_more hread
    refine ⟨hle, fun more => ?_⟩
    dsimp only
    rw [hmore more]
    rfl

/-- The size of an array is in the cookie, or is an integer after it. -/
theorem extends_readArraySize (arraySize : ℕ) :
    Extends (readArraySize arraySize) (readArraySize arraySize) := by
  apply Extends.ite ?_ (.ok _)
  intro rb n rest h
  cases rb with
  | nil => cases h
  | cons t rb =>
    have hinteger := Extends.ite (p := t.toNat % 8 ≠ typeNumber ∨ t.toNat >>> 3 = typeNumberReal)
      (Extends.error (fun rb => Error.invalidStream rb.length 445)
        fun rb => .error (Error.invalidStream rb.length 445))
      (Extends.bind (extends_getInteger (t.toNat >>> 3)) fun x => .ok (x.setWidth 32).toInt.toNat)
    obtain ⟨hle, hmore⟩ := hinteger rb n rest h
    exact ⟨Nat.le_succ_of_le hle, hmore⟩

variable {one one' : List UInt8 → Except Error (Value Unit × List UInt8)}

/-- The fields of an array, one after another. -/
theorem extends_unpackArray (h : Extends one one') (n i : ℕ)
    (fields : List (Value Unit × Value Unit)) :
    Extends (unpackArray plenty one n i fields) (unpackArray plenty one' n i fields) := by
  induction n generalizing i fields with
  | zero => exact .ok fields
  | succ n ih => exact .bind h fun v => ih (i + 1) _

/-- The bound on the rounds of a loop may be greater. -/
theorem extends_unpackHash (h : Extends one one') {n m : ℕ} (hnm : n ≤ m)
    (fields : List (Value Unit × Value Unit)) :
    Extends (unpackHash plenty one n fields) (unpackHash plenty one' m fields) := by
  induction n generalizing m fields with
  | zero => exact .error (fun _ => Error.steps) _
  | succ n ih =>
    obtain ⟨m, rfl⟩ : ∃ k, m = k + 1 := ⟨m - 1, by omega⟩
    have hfield (k : Value Unit) :
        Extends (fun rb => one rb >>= fun p => rawset fields k p.1 >>= fun fields =>
            unpackHash plenty one n fields p.2)
          fun rb => one' rb >>= fun p => rawset fields k p.1 >>= fun fields =>
            unpackHash plenty one' m fields p.2 :=
      .bind h fun v => .lift _ fun fields => ih (Nat.le_of_succ_le_succ hnm) fields
    have hkey (k : Value Unit) : Extends _ _ := .ite (p := k.isNil) (.ok fields) (hfield k)
    exact .bind h hkey

/-- The bound that is set depends on what there is to read. -/
theorem extends_unpackHash_length (h : Extends one one') (fields : List (Value Unit × Value Unit)) :
    Extends (fun rb => unpackHash plenty one (rb.length + 1) fields rb)
      fun rb => unpackHash plenty one' (rb.length + 1) fields rb := by
  intro rb x rest hread
  refine ⟨(extends_unpackHash h (Nat.le_refl _) fields rb x rest hread).1, fun more => ?_⟩
  have hle : rb.length + 1 ≤ (rb ++ more).length + 1 := by
    rw [List.length_append]
    omega
  exact (extends_unpackHash h hle fields rb x rest hread).2 more

/-- A table ends where its nil is, whatever follows. -/
theorem extends_unpackTable (h : Extends one one') (arraySize : ℕ) :
    Extends (unpackTable plenty one arraySize) (unpackTable plenty one' arraySize) := by
  have hrest (n : ℕ) : Extends _ _ := .bind (extends_unpackArray h n 1 []) fun fields =>
    .bind (extends_unpackHash_length h fields) fun fields => .ok (Value.table () fields)
  exact .bind (extends_readArraySize arraySize) hrest

/-- Case by case on the type: if this holds of the values within a value, then it holds of the
value. -/
theorem extends_pushValue (h : Extends one one') (type cookie : ℕ) :
    Extends (pushValue plenty one type cookie) (pushValue plenty one' type cookie) := by
  have hinvalid (line : ℕ) : Extends
      (fun rb => .error (.invalidStream rb.length line) : Reader UInt8 Error (Value Unit))
      fun rb => .error (.invalidStream rb.length line) := .error _ _
  have hstring (len : ℕ) : Extends _ _ :=
    .bind (extends_getBuffer len) fun str => .ok (.string str : Value Unit)
  have hlong (line sz : ℕ) : Extends _ _ := .bind (extends_readMemory line sz) hstring
  have hinteger : Extends _ _ :=
    .bind (extends_getInteger cookie) fun x => .ok (.integer x : Value Unit)
  have hreal : Extends _ _ := extends_read 407 8 fun n => (.real (BitVec.ofNat 64 n) : Value Unit)
  have hpointer : Extends _ _ :=
    extends_read 417 8 fun p => (.lightuserdata (BitVec.ofNat 64 p) : Value Unit)
  exact .ite (.ok (.nil : Value Unit)) (.ite (.ok (.boolean (cookie ≠ 0) : Value Unit)) (.ite
    (.ite hreal hinteger) (.ite hpointer (.ite (hstring cookie) (.ite
    (.ite (hlong 493 2) (.ite (hinvalid 500) (hlong 504 4))) (.ite
    (extends_unpackTable h cookie) (hinvalid 517)))))))

/-- More depth is allowed, and more may follow. -/
theorem extends_unpackOne {n m : ℕ} (hnm : n ≤ m) :
    Extends (unpackOne plenty n) (unpackOne plenty m) := by
  induction n generalizing m with
  | zero => exact .error (fun _ => Error.steps) _
  | succ n ih =>
    obtain ⟨m, rfl⟩ : ∃ k, m = k + 1 := ⟨m - 1, by omega⟩
    intro rb v rest h
    cases rb with
    | nil => cases h
    | cons t rb =>
      obtain ⟨hle, hmore⟩ := extends_pushValue (ih (Nat.le_of_succ_le_succ hnm)) _ _ rb v rest h
      exact ⟨Nat.le_succ_of_le hle, hmore⟩

/-- A value takes one byte at least, that of its type. -/
theorem takes_unpackOne (n : ℕ) : Takes (unpackOne plenty n) := by
  intro rb v rest h
  cases n with
  | zero => cases h
  | succ n =>
    cases rb with
    | nil => cases h
    | cons t rb =>
      have hle := (extends_pushValue (extends_unpackOne (Nat.le_refl n)) _ _ rb v rest h).1
      exact Nat.lt_succ_of_le hle

/-! ## Every message is accepted or refused -/

/-- A number that is not there is an invalid stream. -/
theorem ends_readMemory (n line sz : ℕ) : Ends n .steps (readMemory line sz) := by
  intro rb _ h
  rw [readMemory] at h
  split at h
  · cases h
  · cases h

/-- A number is read, and something is made of it. -/
theorem ends_read {α : Type} (n line sz : ℕ) (F : ℕ → α) :
    Ends n .steps (fun rb => readMemory line sz rb >>= fun p => .ok (F p.1, p.2) :
      Reader UInt8 Error α) :=
  .bind (ends_readMemory n line sz) (extends_readMemory line sz) fun _ => .ok _

/-- An invalid stream is an error of the source. -/
theorem ends_invalid {α : Type} (n line : ℕ) :
    Ends n .steps (fun rb => .error (.invalidStream rb.length line) : Reader UInt8 Error α) :=
  .error fun _ h => Error.noConfusion h

/-- So is a cookie that no integer has. -/
theorem ends_getInteger (n cookie : ℕ) : Ends n .steps (getInteger cookie) :=
  .ite (.ok 0) (.ite (ends_read n 368 1 (BitVec.ofNat 64)) (.ite
    (ends_read n 376 2 (BitVec.ofNat 64)) (.ite
    (ends_read n 384 4 fun n => (BitVec.ofNat 32 n).signExtend 64) (.ite
    (ends_read n 392 8 (BitVec.ofNat 64)) (ends_invalid n 397)))))

/-- A string that is too long, or not there, is an error of the source. -/
theorem ends_getBuffer (n len : ℕ) : Ends n .steps (getBuffer plenty len) := by
  intro rb _ h
  rw [getBuffer] at h
  split_ifs at h
  · cases h
  · split at h
    · cases h
    · cases h

/-- The size of an array is there, or the stream is invalid. -/
theorem ends_readArraySize (n arraySize : ℕ) : Ends n .steps (readArraySize arraySize) := by
  refine Ends.ite ?_ (.ok _)
  intro rb hn h
  cases rb with
  | nil => cases h
  | cons t rb =>
    have hinteger := Ends.ite (p := t.toNat % 8 ≠ typeNumber ∨ t.toNat >>> 3 = typeNumberReal)
      (ends_invalid n 445) (Ends.bind (ends_getInteger n (t.toNat >>> 3))
        (extends_getInteger (t.toNat >>> 3)) fun x => .ok (x.setWidth 32).toInt.toNat)
    exact hinteger rb (Nat.lt_of_succ_lt hn) h

/-- The loop over the array counts its rounds itself. -/
theorem ends_unpackArray {n : ℕ} (hone : Ends n .steps one) (hle : Extends one one) (m i : ℕ)
    (fields : List (Value Unit × Value Unit)) :
    Ends n .steps (unpackArray plenty one m i fields) := by
  induction m generalizing i fields with
  | zero => exact .ok fields
  | succ m ih => exact .bind hone hle fun v => ih (i + 1) _

/-- A key that is NaN is an error of the source. -/
theorem rawset_ne_steps (fields : List (Value Unit × Value Unit)) (k v : Value Unit) :
    rawset fields k v ≠ .error .steps := by
  intro h
  rw [rawset] at h
  rcases hkey : k.key with e | k'
  · rw [hkey] at h
    obtain rfl := Except.error.inj h
    cases k with
    | real n =>
      rw [Value.key] at hkey
      split at hkey
      · cases hkey
      · split_ifs at hkey
        cases hkey
    | nil | boolean _ | integer _ | string _ | lightuserdata _ | table _ _ | other _ => cases hkey
  · rw [hkey] at h
    cases h

/-- The loop over the fields ends, for each round takes something. -/
theorem ends_unpackHash {n : ℕ} (hone : Ends n .steps one) (htakes : Takes one) {m : ℕ}
    {fields : List (Value Unit × Value Unit)} {rb : List UInt8} (hm : rb.length < m)
    (hn : rb.length < n) : unpackHash plenty one m fields rb ≠ .error .steps := by
  induction m generalizing fields rb with
  | zero => exact absurd hm (Nat.not_lt_zero _)
  | succ m ih =>
    intro h
    rw [unpackHash] at h
    rcases hk : one rb with e | ⟨k, rb₁⟩
    · rw [hk] at h
      obtain rfl := Except.error.inj h
      exact hone rb hn hk
    have hlen₁ := htakes rb k rb₁ hk
    rw [hk] at h
    dsimp only [bind, Except.bind] at h
    split_ifs at h with hnil
    · cases h
    rcases hv : one rb₁ with e | ⟨v, rb₂⟩
    · rw [hv] at h
      obtain rfl := Except.error.inj h
      exact hone rb₁ (by omega) hv
    have hlen₂ := htakes rb₁ v rb₂ hv
    rw [hv] at h
    dsimp only at h
    rcases hset : rawset fields k v with e | fields'
    · rw [hset] at h
      obtain rfl := Except.error.inj h
      exact rawset_ne_steps fields k v hset
    · rw [hset] at h
      exact ih (by omega) (by omega) h

/-- Both loops of a table end. -/
theorem ends_unpackTable {n : ℕ} (hone : Ends n .steps one) (hle : Extends one one)
    (htakes : Takes one) (arraySize : ℕ) : Ends n .steps (unpackTable plenty one arraySize) := by
  have hhash (fields : List (Value Unit × Value Unit)) :
      Ends n .steps fun rb => unpackHash plenty one (rb.length + 1) fields rb :=
    fun rb hn => ends_unpackHash hone htakes (Nat.lt_succ_self _) hn
  have hrest (m : ℕ) : Ends n Error.steps _ :=
    .bind (ends_unpackArray hone hle m 1 []) (extends_unpackArray hle m 1 []) fun fields =>
      .bind (hhash fields) (extends_unpackHash_length hle fields) fun fields =>
        .ok (Value.table () fields)
  exact .bind (ends_readArraySize n arraySize) (extends_readArraySize arraySize) hrest

/-- Case by case on the type, as above. -/
theorem ends_pushValue {n : ℕ} (hone : Ends n .steps one) (hle : Extends one one)
    (htakes : Takes one) (type cookie : ℕ) : Ends n .steps (pushValue plenty one type cookie) := by
  have hstring (len : ℕ) : Ends n Error.steps _ :=
    .bind (ends_getBuffer n len) (extends_getBuffer len) fun str => .ok (.string str : Value Unit)
  have hlong (line sz : ℕ) : Ends n Error.steps _ :=
    .bind (ends_readMemory n line sz) (extends_readMemory line sz) hstring
  have hinteger : Ends n Error.steps _ :=
    .bind (ends_getInteger n cookie) (extends_getInteger cookie) fun x =>
      .ok (.integer x : Value Unit)
  have hreal : Ends n Error.steps _ :=
    ends_read n 407 8 fun n => (.real (BitVec.ofNat 64 n) : Value Unit)
  have hpointer : Ends n Error.steps _ :=
    ends_read n 417 8 fun p => (.lightuserdata (BitVec.ofNat 64 p) : Value Unit)
  exact .ite (.ok (.nil : Value Unit)) (.ite (.ok (.boolean (cookie ≠ 0) : Value Unit)) (.ite
    (.ite hreal hinteger) (.ite hpointer (.ite (hstring cookie) (.ite
    (.ite (hlong 493 2) (.ite (ends_invalid n 500) (hlong 504 4))) (.ite
    (ends_unpackTable hone hle htakes cookie) (ends_invalid n 517)))))))

/-- The depth that is allowed is enough, for each table takes a byte. -/
theorem ends_unpackOne (n : ℕ) : Ends n .steps (unpackOne plenty n) := by
  induction n with
  | zero => exact fun _ hn => absurd hn (Nat.not_lt_zero _)
  | succ n ih =>
    intro rb hn h
    cases rb with
    | nil => cases h
    | cons t rb =>
      exact ends_pushValue ih (extends_unpackOne (Nat.le_refl n)) (takes_unpackOne n) _ _ rb
        (Nat.lt_of_succ_lt_succ hn) h

/-! ## What is accepted is well formed -/

/-- A value as Lua has it; nothing is said of what `lua_rawlen` says. -/
def WellFormed (v : Value Unit) : Prop := v.Ok fun _ => True

/-- The fields of a table as Lua has it. -/
def FieldsOk (fields : List (Value Unit × Value Unit)) : Prop := WellFormed (.table () fields)

/-- A field is cleared, set again or added: the keys stay different, and no value is nil. -/
theorem fieldsOk_setField {fields : List (Value Unit × Value Unit)} (h : FieldsOk fields)
    {k v : Value Unit} (hkey : k.key = .ok k) (hnil : k.isNil = false) (hk : WellFormed k)
    (hv : WellFormed v) : FieldsOk (setField fields k v) := by
  cases h with
  | table _ hdistinct hkeyOk hnilOk hvalue hkeys hvalues =>
    rw [setField]
    split_ifs with hclear hfound
    · have hsub {p : Value Unit × Value Unit} (hp : p ∈ fields.filter fun p => !p.1.sameKey k) :
          p ∈ fields := (List.mem_filter.mp hp).1
      exact .table trivial (hdistinct.filter _) (fun p hp => hkeyOk p (hsub hp))
        (fun p hp => hnilOk p (hsub hp)) (fun p hp => hvalue p (hsub hp))
        (fun p hp => hkeys p (hsub hp)) fun p hp => hvalues p (hsub hp)
    · have hmap {P : Value Unit × Value Unit → Prop} (hold : ∀ p ∈ fields, P p)
          (hnew : ∀ p ∈ fields, P (p.1, v)) :
          ∀ p ∈ fields.map (fun p => if p.1.sameKey k then (p.1, v) else p), P p := by
        intro p hp
        obtain ⟨q, hq, rfl⟩ := List.mem_map.mp hp
        split_ifs
        · exact hnew q hq
        · exact hold q hq
      have hfst (p : Value Unit × Value Unit) :
          (if p.1.sameKey k then (p.1, v) else p).1 = p.1 := by
        split_ifs
        · rfl
        · rfl
      refine .table trivial ?_ (hmap hkeyOk hkeyOk) (hmap hnilOk hnilOk)
        (hmap hvalue fun _ _ => eq_false_of_ne_true hclear) (hmap hkeys hkeys)
        (hmap hvalues fun _ _ => hv)
      apply List.pairwise_map.mpr
      apply hdistinct.imp
      intro p q hpq
      rw [hfst, hfst]
      exact hpq
    · have hnew {P : Value Unit × Value Unit → Prop} (hold : ∀ p ∈ fields, P p) (hkv : P (k, v)) :
          ∀ p ∈ fields ++ [(k, v)], P p := by
        intro p hp
        rcases List.mem_append.mp hp with hp | hp
        · exact hold p hp
        · exact List.mem_singleton.mp hp ▸ hkv
      refine .table trivial ?_ (hnew hkeyOk hkey) (hnew hnilOk hnil)
        (hnew hvalue (eq_false_of_ne_true hclear)) (hnew hkeys hk) (hnew hvalues hv)
      apply List.pairwise_append.mpr
      refine ⟨hdistinct, List.pairwise_singleton .., fun p hp q hq => ?_⟩
      obtain rfl := List.mem_singleton.mp hq
      have hany := eq_false_of_ne_true hfound
      exact Bool.eq_false_iff.mpr (List.any_eq_false.mp hany p hp)

/-- The key of a field is as Lua has it. -/
theorem key_spec {k k' : Value Unit} (h : k.key = .ok k') :
    k'.key = .ok k' ∧ k'.isNil = k.isNil ∧ (WellFormed k → WellFormed k') := by
  cases k with
  | real n =>
    rw [Value.key] at h
    rcases hinteger : toInteger n with _ | x
    · rw [hinteger] at h
      dsimp only at h
      split_ifs at h with hnan
      obtain rfl := Except.ok.inj h
      refine ⟨?_, rfl, fun h => h⟩
      rw [Value.key, hinteger]
      dsimp only
      rw [if_neg hnan]
    · rw [hinteger] at h
      obtain rfl := Except.ok.inj h
      exact ⟨rfl, rfl, fun _ => .integer x⟩
  | nil | boolean _ | integer _ | string _ | lightuserdata _ | table _ _ | other _ =>
    obtain rfl := Except.ok.inj h
    exact ⟨rfl, rfl, fun h => h⟩

/-- The loop over the array keeps the fields well formed. -/
theorem keeps_unpackArray (hone : Keeps WellFormed one) (n i : ℕ)
    {fields : List (Value Unit × Value Unit)} (h : FieldsOk fields) :
    Keeps FieldsOk (unpackArray plenty one n i fields) := by
  induction n generalizing i fields with
  | zero => exact .ok h
  | succ n ih =>
    exact .bind hone fun v hv => ih (i + 1) (fieldsOk_setField h rfl rfl (.integer _) hv)

/-- So does the loop over the other fields: it stops at nil, and `lua_rawset` makes the key of a
field what it must be. -/
theorem keeps_unpackHash (hone : Keeps WellFormed one) (n : ℕ)
    {fields : List (Value Unit × Value Unit)} (h : FieldsOk fields) :
    Keeps FieldsOk (unpackHash plenty one n fields) := by
  induction n generalizing fields with
  | zero => exact .error fun _ => Error.steps
  | succ n ih =>
    have hset {k v : Value Unit} (hk : WellFormed k) (hnil : k.isNil = false) (hv : WellFormed v)
        (fields' : List (Value Unit × Value Unit)) (hset : rawset fields k v = .ok fields') :
        FieldsOk fields' := by
      rw [rawset] at hset
      rcases hkey : k.key with e | k'
      · rw [hkey] at hset
        cases hset
      · rw [hkey] at hset
        obtain rfl := Except.ok.inj hset
        obtain ⟨hkey', hnil', hok⟩ := key_spec hkey
        exact fieldsOk_setField h hkey' (hnil'.trans hnil) (hok hk) hv
    have hfield {k : Value Unit} (hk : WellFormed k) (hnil : ¬ k.isNil = true) :
        Keeps FieldsOk fun rb => one rb >>= fun p => rawset fields k p.1 >>= fun fields =>
          unpackHash plenty one n fields p.2 :=
      .bind hone fun v hv => .lift (hset hk (eq_false_of_ne_true hnil) hv) fun _ => ih
    have hkey (k : Value Unit) (hk : WellFormed k) : Keeps FieldsOk _ :=
      .ite (p := k.isNil) (fun _ => .ok h) (hfield hk)
    exact .bind hone hkey

/-- A table starts with no fields, and its loops keep them well formed. -/
theorem keeps_unpackTable (hone : Keeps WellFormed one) (arraySize : ℕ) :
    Keeps WellFormed (unpackTable plenty one arraySize) := by
  have hempty : FieldsOk [] := by
    refine .table trivial .nil ?_ ?_ ?_ ?_ ?_ <;> exact fun _ h => absurd h List.not_mem_nil
  have hhash {fields : List (Value Unit × Value Unit)} (h : FieldsOk fields) :
      Keeps FieldsOk fun rb => unpackHash plenty one (rb.length + 1) fields rb :=
    fun rb => keeps_unpackHash hone (rb.length + 1) h rb
  have hrest (n : ℕ) (_ : True) : Keeps WellFormed _ :=
    .bind (keeps_unpackArray hone n 1 hempty) fun _ h => .bind (hhash h) fun _ h => .ok h
  exact .bind (.any (readArraySize arraySize)) hrest

/-- A string is shorter than 2 GiB. -/
theorem keeps_getBuffer (len : ℕ) :
    Keeps (fun str => str.length < 2 ^ 31) (getBuffer plenty len) := by
  intro rb str rest h
  rw [getBuffer] at h
  split_ifs at h with hbig
  rcases hread : rbRead len rb with _ | ⟨bs, rest'⟩
  · rw [hread] at h
    cases h
  · rw [hread] at h
    obtain ⟨rfl, rfl⟩ := Prod.mk.inj (Except.ok.inj h)
    rw [rbRead] at hread
    split_ifs at hread
    obtain ⟨rfl, -⟩ := Prod.mk.inj (Option.some.inj hread)
    rw [List.length_take]
    omega

/-- Case by case on the type, as above. -/
theorem keeps_pushValue (hone : Keeps WellFormed one) (type cookie : ℕ) :
    Keeps WellFormed (pushValue plenty one type cookie) := by
  have hinvalid (line : ℕ) : Keeps WellFormed
      (fun rb => .error (.invalidStream rb.length line) : Reader UInt8 Error (Value Unit)) :=
    .error fun rb => Error.invalidStream rb.length line
  have hstring (len : ℕ) : Keeps WellFormed _ :=
    .bind (keeps_getBuffer len) fun str h => .ok (.string h : WellFormed (.string str))
  have hlong (line sz : ℕ) : Keeps WellFormed _ :=
    .bind (.any (readMemory line sz)) fun len _ => hstring len
  have hinteger : Keeps WellFormed _ :=
    .bind (.any (getInteger cookie)) fun x _ => .ok (.integer x : WellFormed (.integer x))
  have hreal : Keeps WellFormed _ := .bind (.any (readMemory 407 8)) fun n _ =>
    .ok (.real (BitVec.ofNat 64 n) : WellFormed (.real (BitVec.ofNat 64 n)))
  have hpointer : Keeps WellFormed _ := .bind (.any (readMemory 417 8)) fun p _ =>
    .ok (.lightuserdata (BitVec.ofNat 64 p) : WellFormed (.lightuserdata (BitVec.ofNat 64 p)))
  exact .ite (fun _ => .ok .nil) fun _ => .ite (fun _ => .ok (.boolean _)) fun _ => .ite
    (fun _ => .ite (fun _ => hreal) fun _ => hinteger) fun _ => .ite (fun _ => hpointer) fun _ =>
    .ite (fun _ => hstring cookie) fun _ => .ite (fun _ => .ite (fun _ => hlong 493 2) fun _ =>
    .ite (fun _ => hinvalid 500) fun _ => hlong 504 4) fun _ =>
    .ite (fun _ => keeps_unpackTable hone cookie) fun _ => hinvalid 517

/-- What is read of a value is well formed, by induction on the depth. -/
theorem keeps_unpackOne (n : ℕ) : Keeps WellFormed (unpackOne plenty n) := by
  induction n with
  | zero => exact .error fun _ => Error.steps
  | succ n ih =>
    intro rb v rest h
    cases rb with
    | nil => cases h
    | cons t rb => exact keeps_pushValue ih _ _ rb v rest h

/-! ## Messages -/

/-- The first value of a message, and the rest. -/
theorem unpackLoop_cons {n i : ℕ} {rb : List UInt8} (hrb : rb ≠ []) :
    unpackLoop plenty (n + 1) i rb = unpackOne plenty (rb.length + 1) rb >>= fun p =>
      (unpackLoop plenty n (i + 1) p.2).map fun vs => p.1 :: vs := by
  cases rb with
  | nil => exact absurd rfl hrb
  | cons t rb => exact unpackLoop_plenty n i t rb

/-- A message that is accepted and not empty is a value and a message. -/
theorem unpackLoop_eq_ok {n i : ℕ} {rb : List UInt8} (hrb : rb ≠ []) {vs : List (Value Unit)}
    (h : unpackLoop plenty n i rb = .ok vs) :
    ∃ m v rest ws, n = m + 1 ∧ unpackOne plenty (rb.length + 1) rb = .ok (v, rest) ∧
      unpackLoop plenty m (i + 1) rest = .ok ws ∧ vs = v :: ws := by
  cases n with
  | zero =>
    cases rb with
    | nil => exact absurd rfl hrb
    | cons t rb =>
      rw [unpackLoop] at h
      cases (ite_self _).symm.trans h
  | succ n =>
    rw [unpackLoop_cons hrb] at h
    obtain ⟨⟨v, rest⟩, hfirst, h⟩ := bind_eq_ok.mp h
    rcases hrest : unpackLoop plenty n (i + 1) rest with e | ws
    · rw [hrest] at h
      cases h
    · rw [hrest] at h
      exact ⟨n, v, rest, ws, rfl, hfirst, hrest, (Except.ok.inj h).symm⟩

/-- The number of rounds that are allowed makes no difference if it is enough, nor does the
number of the value. -/
theorem unpackLoop_enough {n m i j : ℕ} {rb : List UInt8} (hn : rb.length ≤ n)
    (hm : rb.length ≤ m) : unpackLoop plenty n i rb = unpackLoop plenty m j rb := by
  induction n generalizing m i j rb with
  | zero =>
    obtain rfl := List.eq_nil_of_length_eq_zero (Nat.le_zero.mp hn)
    rw [unpackLoop_plenty_nil, unpackLoop_plenty_nil]
  | succ n ih =>
    rcases eq_or_ne rb [] with rfl | hrb
    · rw [unpackLoop_plenty_nil, unpackLoop_plenty_nil]
    · have hpos := List.length_pos_iff.mpr hrb
      obtain ⟨m, rfl⟩ : ∃ k, m = k + 1 := ⟨m - 1, by omega⟩
      rw [unpackLoop_cons hrb, unpackLoop_cons hrb]
      rcases hfirst : unpackOne plenty (rb.length + 1) rb with e | ⟨v, rest⟩
      · rfl
      · have hlt := takes_unpackOne _ rb v rest hfirst
        dsimp only [bind, Except.bind]
        rw [ih (m := m) (i := i + 1) (j := j + 1) (by omega) (by omega)]

/-- Messages can be joined: if a message is accepted, then what follows it is read as a message
of its own. -/
theorem unpack_append {bs : List UInt8} {vs : List (Value Unit)} (h : unpack plenty bs = .ok vs)
    (cs : List UInt8) :
    unpack plenty (bs ++ cs) = (unpack plenty cs).map fun ws => vs ++ ws := by
  induction hn : bs.length using Nat.strong_induction_on generalizing bs vs with
  | _ n ih =>
    rcases eq_or_ne bs [] with rfl | hbs
    · obtain rfl := Except.ok.inj ((unpackLoop_plenty_nil 0 0).symm.trans h)
      rw [List.nil_append]
      cases unpack plenty cs <;> rfl
    · obtain ⟨m, v, rest, ws, hm, hfirst, hrest, rfl⟩ := unpackLoop_eq_ok hbs h
      have hlt := takes_unpackOne _ bs v rest hfirst
      have hrest' : unpack plenty rest = .ok ws :=
        (unpackLoop_enough (Nat.le_refl _) (by omega)).trans hrest
      have hne : bs ++ cs ≠ [] := List.append_ne_nil_of_left_ne_nil hbs cs
      have hfirst' :
          unpackOne plenty ((bs ++ cs).length + 1) (bs ++ cs) = .ok (v, rest ++ cs) := by
        refine (extends_unpackOne ?_ bs v rest hfirst).2 cs
        rw [List.length_append]
        omega
      obtain ⟨k, hk⟩ : ∃ k, (bs ++ cs).length = k + 1 :=
        ⟨(bs ++ cs).length - 1, by rw [List.length_append]; omega⟩
      have hloop : unpackLoop plenty k 1 (rest ++ cs) = unpack plenty (rest ++ cs) := by
        apply unpackLoop_enough ?_ (Nat.le_refl _)
        rw [List.length_append] at hk ⊢
        omega
      rw [unpack, hk, unpackLoop_cons hne, hfirst']
      dsimp only [bind, Except.bind]
      rw [hloop, ih rest.length (hn ▸ hlt) hrest' rfl]
      cases unpack plenty cs <;> rfl

/-- The rounds that are allowed are as many as there are bytes, and each value takes one. -/
theorem unpack_plenty_ne_steps (bs : List UInt8) : unpack plenty bs ≠ .error .steps := by
  have hloop (n i : ℕ) (rb : List UInt8) (hn : rb.length ≤ n) :
      unpackLoop plenty n i rb ≠ .error .steps := by
    induction n generalizing i rb with
    | zero =>
      obtain rfl := List.eq_nil_of_length_eq_zero (Nat.le_zero.mp hn)
      rw [unpackLoop_plenty_nil]
      exact fun h => by cases h
    | succ n ih =>
      intro h
      rcases eq_or_ne rb [] with rfl | hrb
      · cases (unpackLoop_plenty_nil (n + 1) i).symm.trans h
      · rw [unpackLoop_cons hrb] at h
        rcases hfirst : unpackOne plenty (rb.length + 1) rb with e | ⟨v, rest⟩
        · rw [hfirst] at h
          obtain rfl := Except.error.inj h
          exact ends_unpackOne _ rb (Nat.lt_succ_self _) hfirst
        · have hlt := takes_unpackOne _ rb v rest hfirst
          rw [hfirst] at h
          dsimp only [bind, Except.bind] at h
          rcases hrest : unpackLoop plenty n (i + 1) rest with e | ws
          · rw [hrest] at h
            obtain rfl := Except.error.inj h
            exact ih (i + 1) rest (by omega) hrest
          · rw [hrest] at h
            cases h
  exact hloop _ 0 bs (Nat.le_refl _)

/-- The values of a message are well formed one by one. -/
theorem wellFormed_of_unpackLoop {n i : ℕ} {rb : List UInt8} {vs : List (Value Unit)}
    (h : unpackLoop plenty n i rb = .ok vs) : ∀ v ∈ vs, WellFormed v := by
  induction n generalizing i rb vs with
  | zero =>
    rcases eq_or_ne rb [] with rfl | hrb
    · obtain rfl := Except.ok.inj ((unpackLoop_plenty_nil 0 i).symm.trans h)
      exact fun _ hv => absurd hv List.not_mem_nil
    · obtain ⟨m, _, _, _, hm, -⟩ := unpackLoop_eq_ok hrb h
      exact absurd hm (Nat.succ_ne_zero m).symm
  | succ n ih =>
    rcases eq_or_ne rb [] with rfl | hrb
    · obtain rfl := Except.ok.inj ((unpackLoop_plenty_nil (n + 1) i).symm.trans h)
      exact fun _ hv => absurd hv List.not_mem_nil
    · obtain ⟨m, v, rest, ws, hm, hfirst, hrest, rfl⟩ := unpackLoop_eq_ok hrb h
      obtain rfl := Nat.succ.inj hm
      intro u hu
      rcases List.mem_cons.mp hu with rfl | hu
      · exact keeps_unpackOne _ rb u rest hfirst
      · exact ih hrest u hu

/-- The steps that the model allows are enough. -/
theorem unpack_ne_steps (lua : Lua) (bs : List UInt8) : unpack lua bs ≠ .error .steps := by
  intro h
  rcases falters_unpack lua bs with heq | ⟨e, ⟨need, left, -, rfl⟩, herror⟩
  · exact unpack_plenty_ne_steps bs (heq.symm.trans h)
  · -- an error that Lua raises because it lacks something
    have hsteps := Except.error.inj (herror.symm.trans h)
    cases need <;> cases hsteps

/-- **What is accepted is well formed.** Whatever the bytes are, and whatever room and memory Lua
has, `unpack` either gives values as Lua has them, where no table has a key twice, or a key or a
value that it must not have; or it raises one of the errors of the source. -/
theorem accepted_ok (lua : Lua) (bs : List UInt8) :
    (∃ vs, unpack lua bs = .ok vs ∧ ∀ v ∈ vs, WellFormed v) ∨
      ∃ e, unpack lua bs = .error e ∧ e ≠ .steps := by
  rcases h : unpack lua bs with e | vs
  · refine .inr ⟨e, rfl, ?_⟩
    rintro rfl
    exact unpack_ne_steps lua bs h
  · exact .inl ⟨vs, rfl, wellFormed_of_unpackLoop ((falters_unpack lua bs).eq_ok h)⟩

/-- A message with bytes has values. -/
theorem ne_nil_of_unpack {bs : List UInt8} (hbs : bs ≠ []) {vs : List (Value Unit)}
    (h : unpack plenty bs = .ok vs) : vs ≠ [] := by
  obtain ⟨_, v, _, ws, -, -, -, rfl⟩ := unpackLoop_eq_ok hbs h
  exact List.cons_ne_nil v ws

/-- **What was cut off is refused.** If the message of one value is cut, then `unpack` raises an
error for the first part, however little is missing. -/
theorem cut_off_refused {v : Value Walk} (hok : v.Ok Walk.Small) {bs cs : List UInt8}
    (h : pack [v] = .ok (bs ++ cs)) (hbs : bs ≠ []) (hcs : cs ≠ []) (lua : Lua) :
    ∃ e, unpack lua bs = .error e ∧ e ≠ .steps := by
  rcases hread : unpack lua bs with e | vs
  · refine ⟨e, rfl, ?_⟩
    rintro rfl
    exact unpack_ne_steps lua bs hread
  · have hvs := (falters_unpack lua bs).eq_ok hread
    obtain ⟨ws, hsame, hws⟩ :=
      unpack_plenty_of_pack (fun u hu => List.mem_singleton.mp hu ▸ hok) h
    have hlen : ws.length = 1 := hsame.length_eq.symm
    rw [unpack_append hvs] at hws
    rcases hrest : unpack plenty cs with e | us
    · rw [hrest] at hws
      cases hws
    · rw [hrest] at hws
      obtain rfl := Except.ok.inj hws
      have hpos := List.length_pos_iff.mpr (ne_nil_of_unpack hbs hvs)
      have hpos' := List.length_pos_iff.mpr (ne_nil_of_unpack hcs hrest)
      rw [List.length_append] at hlen
      omega

/-- The second byte of an integer is missing. -/
theorem cut_off_refused_integer :
    pack [.integer 300] = .ok ([18, 44] ++ [1]) ∧
      ∃ e, unpack plenty [18, 44] = .error e ∧ e ≠ .steps := by
  have hpack : pack [.integer 300] = .ok ([18, 44] ++ [1]) := rfl
  refine ⟨hpack, cut_off_refused (.integer 300) hpack ?_ ?_ plenty⟩
  · exact List.cons_ne_nil _ _
  · exact List.cons_ne_nil _ _

end SlgServer.LuaSeri
