import SlgServer.BigEndian

/-!
# Packing Lua values (`skynet/lualib-src/lua-seri.c`)

The services of a node send each other Lua values as bytes: `pack` writes them, `unpack` reads
them. A byte says of which type a value is, in three bits, and gives a detail of it in the
others; more bytes may follow. Numbers of several bytes are copied as they are in memory, the
low byte first.

Packing goes through a table with `lua_next`, or with the metamethod `__pairs` if it has one; in
which order, and what is found, is part of the value (`Walk`). That Lua may have no room on its
stack when it packs, and what a metamethod raises, is left out; then nothing is packed.

Unpacking asks Lua for room on its stack and for memory, and Lua may not have them: what it
answers is a parameter (`Lua`). The stack of C has no limit here. Messages are shorter than 2 GiB,
for their length is an `int` in the source.
-/

namespace SlgServer.LuaSeri

/-! ## Values -/

/-- A Lua value. A float is its bits; a table has its fields in some order, and what is known of
how to go through it. -/
inductive Value (S : Type) : Type where
  | nil
  | boolean (b : Bool)
  | integer (x : BitVec 64)
  | real (n : BitVec 64)
  | string (str : List UInt8)
  | lightuserdata (p : BitVec 64)
  | table (s : S) (fields : List (Value S × Value S))
  /-- a function, a thread, or a userdata with a type of its own -/
  | other (typename : String)

/-- How `wb_table` goes through the fields of a table. -/
inductive Walk : Type where
  /-- with `lua_next`, if the table has no metamethod `__pairs`; `rawlen` is what `lua_rawlen`
  says of it -/
  | next (rawlen : ℕ)
  /-- with the metamethod `__pairs`; the fields are what it gives -/
  | pairs

/-- The errors that packing raises, with what is in their texts. -/
inductive PackError : Type where
  /-- "serialize can't pack too depth table" -/
  | tooDepth
  /-- "Unsupport type %s to serialize" -/
  | unsupport (typename : String)
  /-- no error of the source: `len`, an `int`, grows to 2 GiB, and what happens is undefined -/
  | overflow
  deriving DecidableEq

/-- The errors that unpacking raises, with what is in their texts. -/
inductive Error : Type where
  /-- "Invalid serialize stream %d (line:%d)" -/
  | invalidStream (len line : ℕ)
  /-- "table index is NaN" -/
  | indexIsNaN
  /-- "memory allocation error: block too big" -/
  | tooBig
  /-- "stack overflow" -/
  | stackOverflow
  /-- "not enough memory" -/
  | notEnoughMemory
  /-- no error of the source: the steps that this model allows are over -/
  | steps
  deriving DecidableEq

variable {S : Type}

/-- The integer that a float is equal to, if it fits: `luaV_tointeger` without rounding. -/
def toInteger (n : BitVec 64) : Option (BitVec 64) :=
  let negative : Bool := n.getLsbD 63
  let exponent := (n.toNat >>> 52) % 2048
  let mantissa := n.toNat % 2 ^ 52
  if exponent = 0 ∧ mantissa = 0 then some 0
  else if exponent < 1023 then none
  else if exponent < 1023 + 52 ∧ (2 ^ 52 + mantissa) % 2 ^ (1023 + 52 - exponent) ≠ 0 then none
  else if exponent < 1023 + 63 then
    let x : ℕ := (2 ^ 52 + mantissa) <<< (exponent - 1023) >>> 52
    some (if negative then -BitVec.ofNat 64 x else BitVec.ofNat 64 x)
  else if exponent = 1023 + 63 ∧ mantissa = 0 ∧ negative then some (BitVec.ofNat 64 (2 ^ 63))
  else none

def isNaN (n : BitVec 64) : Bool := (n.toNat >>> 52) % 2048 == 2047 && n.toNat % 2 ^ 52 != 0

/-- The key under which a table has the field: `luaH_newkey`. The key is not nil. -/
def Value.key : Value S → Except Error (Value S)
  | .real n =>
    match toInteger n with
    | some x => .ok (.integer x)
    | none => if isNaN n then .error .indexIsNaN else .ok (.real n)
  | v => .ok v

/-- Keys of one field. A table that was just made is no key yet. -/
def Value.sameKey : Value S → Value S → Bool
  | .boolean b, .boolean b' => b == b'
  | .integer x, .integer x' => x == x'
  | .real n, .real n' => n == n'
  | .string str, .string str' => str == str'
  | .lightuserdata p, .lightuserdata p' => p == p'
  | _, _ => false

def Value.isNil : Value S → Bool
  | .nil => true
  | _ => false

/-- `lua_rawgeti`. -/
def rawgeti (fields : List (Value S × Value S)) (i : ℕ) : Value S :=
  match fields.find? fun p => p.1.sameKey (.integer (BitVec.ofNat 64 i)) with
  | some p => p.2
  | none => .nil

/-- The value of a field is set; nil clears the field. -/
def setField (fields : List (Value S × Value S)) (k v : Value S) : List (Value S × Value S) :=
  if v.isNil then fields.filter fun p => !p.1.sameKey k
  else if fields.any fun p => p.1.sameKey k then
    fields.map fun p => if p.1.sameKey k then (p.1, v) else p
  else fields ++ [(k, v)]

/-- `lua_rawset`. -/
def rawset (fields : List (Value S × Value S)) (k v : Value S) :
    Except Error (List (Value S × Value S)) :=
  k.key.map fun k => setField fields k v

/-! ## Types -/

def typeNil : ℕ := 0
def typeBoolean : ℕ := 1
def typeNumber : ℕ := 2
def typeNumberZero : ℕ := 0
def typeNumberByte : ℕ := 1
def typeNumberWord : ℕ := 2
def typeNumberDword : ℕ := 4
def typeNumberQword : ℕ := 6
def typeNumberReal : ℕ := 8
def typeUserdata : ℕ := 3
def typeShortString : ℕ := 4
def typeLongString : ℕ := 5
def typeTable : ℕ := 6

def maxCookie : ℕ := 32

/-- `COMBINE_TYPE`. -/
def combineType (t v : ℕ) : UInt8 := UInt8.ofNat (t ||| v <<< 3)

def blockSize : ℕ := 128
def maxDepth : ℕ := 32

/-- A length as an `int`. -/
def int (n : ℕ) : ℤ := (BitVec.ofNat 32 n).toInt

/-- What a type byte has room for of a number: five bits. -/
def lowBits (n : ℤ) : ℕ := (n % 32).toNat

/-- A number in `k` bytes, as it is in memory. -/
def memory (k n : ℕ) : List UInt8 := (BigEndian.bytes k n).reverse

/-- The number that is so in memory. -/
def ofMemory (bs : List UInt8) : ℕ := BigEndian.value bs.reverse

/-! ## Writing -/

/-- `struct write_block`: the blocks before the current one, which are full, and what was
written to the current one. -/
structure WriteBlock : Type where
  /-- from `head` to the block before `current` -/
  blocks : List (List UInt8)
  /-- `current`; `ptr` is its length -/
  buffer : List UInt8
  /-- `len`; beyond the range of `int` there is no packing -/
  len : ℕ
  full : ∀ b ∈ blocks, b.length = blockSize
  fits : buffer.length ≤ blockSize
  total : len = blocks.flatten.length + buffer.length

/-- `wb_init`. -/
def WriteBlock.init : WriteBlock where
  blocks := []
  buffer := []
  len := 0
  full := fun _ h => absurd h List.not_mem_nil
  fits := Nat.zero_le _
  total := rfl

/-- `memcpy` to the current block. -/
def WriteBlock.copy (wb : WriteBlock) (buf : List UInt8)
    (h : buf.length ≤ blockSize - wb.buffer.length) : WriteBlock where
  blocks := wb.blocks
  buffer := wb.buffer ++ buf
  len := wb.len + buf.length
  full := wb.full
  fits := by
    have hfits := wb.fits
    rw [List.length_append]
    omega
  total := by rw [wb.total, List.length_append, Nat.add_assoc]

/-- A new block, after one that is full. -/
def WriteBlock.alloc (wb : WriteBlock) (h : wb.buffer.length = blockSize) : WriteBlock where
  blocks := wb.blocks ++ [wb.buffer]
  buffer := []
  len := wb.len
  full := fun b hb => by
    rcases List.mem_append.mp hb with hb | hb
    · exact wb.full b hb
    · exact List.mem_singleton.mp hb ▸ h
  fits := Nat.zero_le _
  total := by rw [wb.total, List.flatten_concat, List.length_append]; rfl

/-- The loop of `wb_push`, with a bound on its rounds. -/
def WriteBlock.again : ℕ → WriteBlock → List UInt8 → WriteBlock
  | 0, wb, _ => wb
  | n + 1, wb, buf =>
    if h : wb.buffer.length ≠ blockSize ∧ buf.length ≤ blockSize - wb.buffer.length then
      wb.copy buf h.2
    else
      -- a block that is full gets no bytes
      let wb' := wb.copy (buf.take (blockSize - wb.buffer.length)) (List.length_take_le _ _)
      if h' : wb'.buffer.length = blockSize then
        (wb'.alloc h').again n (buf.drop (blockSize - wb.buffer.length))
      else wb'

/-- `wb_push`. -/
def WriteBlock.push (wb : WriteBlock) (buf : List UInt8) : WriteBlock :=
  wb.again (buf.length + 2) buf

/-- `wb_nil`. -/
def WriteBlock.nil (wb : WriteBlock) : WriteBlock := wb.push [UInt8.ofNat typeNil]

/-- `wb_boolean`. -/
def WriteBlock.boolean (wb : WriteBlock) (b : Bool) : WriteBlock :=
  wb.push [combineType typeBoolean (if b then 1 else 0)]

/-- `wb_integer`. -/
def WriteBlock.integer (wb : WriteBlock) (v : BitVec 64) : WriteBlock :=
  if v = 0 then wb.push [combineType typeNumber typeNumberZero]
  else if v ≠ (v.setWidth 32).signExtend 64 then
    (wb.push [combineType typeNumber typeNumberQword]).push (memory 8 v.toNat)
  else if v.toInt < 0 then
    (wb.push [combineType typeNumber typeNumberDword]).push (memory 4 v.toNat)
  else if v.toInt < 0x100 then
    (wb.push [combineType typeNumber typeNumberByte]).push (memory 1 v.toNat)
  else if v.toInt < 0x10000 then
    (wb.push [combineType typeNumber typeNumberWord]).push (memory 2 v.toNat)
  else (wb.push [combineType typeNumber typeNumberDword]).push (memory 4 v.toNat)

/-- `wb_real`. -/
def WriteBlock.real (wb : WriteBlock) (v : BitVec 64) : WriteBlock :=
  (wb.push [combineType typeNumber typeNumberReal]).push (memory 8 v.toNat)

/-- `wb_pointer`. -/
def WriteBlock.pointer (wb : WriteBlock) (v : BitVec 64) : WriteBlock :=
  (wb.push [UInt8.ofNat typeUserdata]).push (memory 8 v.toNat)

/-- `wb_string`, with the length of the string as an `int`. -/
def WriteBlock.string (wb : WriteBlock) (str : List UInt8) : WriteBlock :=
  let len := int str.length
  let bytes := str.take len.toNat
  if len < maxCookie then
    let wb := wb.push [combineType typeShortString (lowBits len)]
    if 0 < len then wb.push bytes else wb
  else if len < 0x10000 then
    ((wb.push [combineType typeLongString 2]).push (memory 2 len.toNat)).push bytes
  else ((wb.push [combineType typeLongString 4]).push (memory 4 len.toNat)).push bytes

/-- The head of a table, in `wb_table_array`. -/
def WriteBlock.table (wb : WriteBlock) (arraySize : ℤ) : WriteBlock :=
  if arraySize ≥ maxCookie - 1 then
    (wb.push [combineType typeTable (maxCookie - 1)]).integer (BitVec.ofInt 64 arraySize)
  else wb.push [combineType typeTable (lowBits arraySize)]

/-- `x > 0 && x <= array_size`, of a key that is an integer. -/
def Value.inArray (arraySize : ℤ) : Value S → Bool
  | .integer x => 0 < x.toInt && x.toInt ≤ arraySize
  | _ => false

/-- The rest of `wb_table_array`; `one` is `pack_one`. -/
def packArray (one : Value Walk → WriteBlock → Except PackError WriteBlock) (arraySize : ℤ)
    (fields : List (Value Walk × Value Walk)) (wb : WriteBlock) : Except PackError WriteBlock :=
  (List.range' 1 arraySize.toNat).foldlM (fun wb i => one (rawgeti fields i) wb) wb

/-- The loop of `wb_table_hash`. -/
def packHash (one : Value Walk → WriteBlock → Except PackError WriteBlock) (arraySize : ℤ)
    (fields : List (Value Walk × Value Walk)) (wb : WriteBlock) : Except PackError WriteBlock :=
  fields.foldlM (fun wb (k, v) =>
    if k.inArray arraySize then .ok wb else do
      let wb ← one k wb
      one v wb) wb

/-- The loop of `wb_table_metapairs`. It ends at the first key that is nil. -/
def packPairs (one : Value Walk → WriteBlock → Except PackError WriteBlock)
    (fields : List (Value Walk × Value Walk)) (wb : WriteBlock) : Except PackError WriteBlock :=
  (fields.takeWhile fun p => !p.1.isNil).foldlM (fun wb (k, v) => do
    let wb ← one k wb
    one v wb) wb

/-- `pack_one`; `left` is `MAX_DEPTH + 1 - depth`. -/
def packOne : ℕ → Value Walk → WriteBlock → Except PackError WriteBlock
  | 0, _, _ => .error .tooDepth
  | left + 1, v, wb =>
    match v with
    | .nil => .ok wb.nil
    | .integer x => .ok (wb.integer x)
    | .real n => .ok (wb.real n)
    | .boolean b => .ok (wb.boolean b)
    | .string str => .ok (wb.string str)
    | .lightuserdata p => .ok (wb.pointer p)
    | .table (.next rawlen) fields => do
      let wb ← packArray (packOne left) (int rawlen) fields (wb.table (int rawlen))
      let wb ← packHash (packOne left) (int rawlen) fields wb
      .ok wb.nil
    | .table .pairs fields => do
      let wb ← packPairs (packOne left) fields (wb.push [combineType typeTable 0])
      .ok wb.nil
    | .other typename => .error (.unsupport typename)

/-- `pack_from`. -/
def packFrom (vs : List (Value Walk)) (wb : WriteBlock) : Except PackError WriteBlock :=
  vs.foldlM (fun wb v => packOne (maxDepth + 1) v wb) wb

/-- `seri`: the first `len` bytes of the blocks. -/
def seri : List (List UInt8) → ℕ → List UInt8
  | [], _ => []
  | b :: bs, len =>
    if len = 0 then []
    else if len ≥ blockSize then b ++ seri bs (len - blockSize)
    else b.take len

/-- `luaseri_pack`. -/
def pack (vs : List (Value Walk)) : Except PackError (List UInt8) := do
  let wb ← packFrom vs .init
  if wb.len < 2 ^ 31 then .ok (seri (wb.blocks ++ [wb.buffer]) wb.len)
  else .error .overflow

/-! ## What unpacking asks for -/

/-- What Lua is asked for. -/
inductive Need : Type where
  /-- room on its stack: `luaL_checkstack` -/
  | stack
  /-- memory for a string: `lua_pushlstring` -/
  | string
  /-- memory for an array of this size: `lua_createtable` -/
  | array (size : ℕ)
  /-- memory for a field: `lua_rawseti`, `lua_rawset` -/
  | field
  deriving DecidableEq

/-- What Lua answers. Unpacking asks for the same thing once at most before it reads on, so that
the number of bytes that are left to read says when it asks. -/
structure Lua : Type where
  /-- it has what is needed -/
  has : Need → ℕ → Bool

/-- The error that Lua raises. -/
def Need.error : Need → Error
  | .stack => .stackOverflow
  | .string | .array _ | .field => .notEnoughMemory

/-- Lua is asked for something, with the bytes `rb` left to read. -/
def Lua.ask (lua : Lua) (need : Need) (rb : List UInt8) : Except Error Unit :=
  if lua.has need rb.length then .ok () else .error need.error

/-- A Lua that has whatever is needed. -/
def plenty : Lua := ⟨fun _ _ => true⟩

/-! ## Reading -/

/-- `rb_read`. -/
def rbRead (sz : ℕ) (rb : List UInt8) : Option (List UInt8 × List UInt8) :=
  if rb.length < sz then none else some (rb.take sz, rb.drop sz)

/-- `rb_read` of a number; `invalid_stream` otherwise, with the number of its line. -/
def readMemory (line sz : ℕ) (rb : List UInt8) : Except Error (ℕ × List UInt8) :=
  match rbRead sz rb with
  | some (bs, rb) => .ok (ofMemory bs, rb)
  | none => .error (.invalidStream rb.length line)

/-- `get_integer`. -/
def getInteger (cookie : ℕ) (rb : List UInt8) : Except Error (BitVec 64 × List UInt8) :=
  if cookie = typeNumberZero then .ok (0, rb)
  else if cookie = typeNumberByte then do
    let (n, rb) ← readMemory 368 1 rb
    return (BitVec.ofNat 64 n, rb)
  else if cookie = typeNumberWord then do
    let (n, rb) ← readMemory 376 2 rb
    return (BitVec.ofNat 64 n, rb)
  else if cookie = typeNumberDword then do
    let (n, rb) ← readMemory 384 4 rb
    return ((BitVec.ofNat 32 n).signExtend 64, rb)
  else if cookie = typeNumberQword then do
    let (n, rb) ← readMemory 392 8 rb
    return (BitVec.ofNat 64 n, rb)
  else .error (.invalidStream rb.length 397)

/-- `get_buffer`. A length of 2 GiB or more is negative as an `int`, and too much for Lua. -/
def getBuffer (lua : Lua) (len : ℕ) (rb : List UInt8) : Except Error (List UInt8 × List UInt8) :=
  if len ≥ 2 ^ 31 then .error .tooBig
  else
    match rbRead len rb with
    | some (p, rb) => do
      lua.ask .string rb
      return (p, rb)
    | none => .error (.invalidStream rb.length 427)

/-- The loop of `unpack_table` over the array; `one` is `unpack_one`. -/
def unpackArray (lua : Lua) (one : List UInt8 → Except Error (Value Unit × List UInt8)) :
    ℕ → ℕ → List (Value Unit × Value Unit) → List UInt8 →
      Except Error (List (Value Unit × Value Unit) × List UInt8)
  | 0, _, fields, rb => .ok (fields, rb)
  | n + 1, i, fields, rb => do
    let (v, rb) ← one rb
    lua.ask .field rb
    unpackArray lua one n (i + 1) (setField fields (.integer (BitVec.ofNat 64 i)) v) rb

/-- The loop of `unpack_table` over the other fields, with a bound on its rounds. -/
def unpackHash (lua : Lua) (one : List UInt8 → Except Error (Value Unit × List UInt8)) :
    ℕ → List (Value Unit × Value Unit) → List UInt8 →
      Except Error (List (Value Unit × Value Unit) × List UInt8)
  | 0, _, _ => .error .steps
  | n + 1, fields, rb => do
    let (k, rb) ← one rb
    if k.isNil then return (fields, rb)
    let (v, rb) ← one rb
    let fields ← rawset fields k v
    lua.ask .field rb
    unpackHash lua one n fields rb

/-- The size of the array, in `unpack_table`. -/
def readArraySize (arraySize : ℕ) (rb : List UInt8) : Except Error (ℕ × List UInt8) :=
  if arraySize = maxCookie - 1 then
    match rb with
    | [] => .error (.invalidStream 0 440)
    | t :: rb =>
      let cookie := t.toNat >>> 3
      if t.toNat % 8 ≠ typeNumber ∨ cookie = typeNumberReal then
        .error (.invalidStream rb.length 445)
      else do
        let (n, rb) ← getInteger cookie rb
        return ((n.setWidth 32).toInt.toNat, rb)
  else .ok (arraySize, rb)

/-- `unpack_table`. -/
def unpackTable (lua : Lua) (one : List UInt8 → Except Error (Value Unit × List UInt8))
    (arraySize : ℕ) (rb : List UInt8) : Except Error (Value Unit × List UInt8) := do
  let (arraySize, rb) ← readArraySize arraySize rb
  lua.ask .stack rb
  lua.ask (.array arraySize) rb
  let (fields, rb) ← unpackArray lua one arraySize 1 [] rb
  let (fields, rb) ← unpackHash lua one (rb.length + 1) fields rb
  return (.table () fields, rb)

/-- `push_value`; `one` is `unpack_one`. -/
def pushValue (lua : Lua) (one : List UInt8 → Except Error (Value Unit × List UInt8))
    (type cookie : ℕ) (rb : List UInt8) : Except Error (Value Unit × List UInt8) :=
  if type = typeNil then .ok (.nil, rb)
  else if type = typeBoolean then .ok (.boolean (cookie ≠ 0), rb)
  else if type = typeNumber then
    if cookie = typeNumberReal then do
      let (n, rb) ← readMemory 407 8 rb
      return (.real (BitVec.ofNat 64 n), rb)
    else do
      let (x, rb) ← getInteger cookie rb
      return (.integer x, rb)
  else if type = typeUserdata then do
    let (p, rb) ← readMemory 417 8 rb
    return (.lightuserdata (BitVec.ofNat 64 p), rb)
  else if type = typeShortString then do
    let (str, rb) ← getBuffer lua cookie rb
    return (.string str, rb)
  else if type = typeLongString then
    if cookie = 2 then do
      let (n, rb) ← readMemory 493 2 rb
      let (str, rb) ← getBuffer lua n rb
      return (.string str, rb)
    else if cookie ≠ 4 then .error (.invalidStream rb.length 500)
    else do
      let (n, rb) ← readMemory 504 4 rb
      let (str, rb) ← getBuffer lua n rb
      return (.string str, rb)
  else if type = typeTable then unpackTable lua one cookie rb
  else .error (.invalidStream rb.length 517)

/-- `unpack_one`, with a bound on the depth of tables. -/
def unpackOne (lua : Lua) : ℕ → List UInt8 → Except Error (Value Unit × List UInt8)
  | 0, _ => .error .steps
  | _ + 1, [] => .error (.invalidStream 0 528)
  | n + 1, t :: rb => pushValue lua (unpackOne lua n) (t.toNat % 8) (t.toNat >>> 3) rb

/-- The loop of `luaseri_unpack` for the value number `i`, with a bound on its rounds. -/
def unpackLoop (lua : Lua) : ℕ → ℕ → List UInt8 → Except Error (List (Value Unit))
  | n, i, rb => do
    if i % 8 = 7 then lua.ask .stack rb
    match n, rb with
    | _, [] => .ok []
    | 0, _ :: _ => .error .steps
    | n + 1, t :: rb =>
      let (v, rest) ← pushValue lua (unpackOne lua (rb.length + 1)) (t.toNat % 8) (t.toNat >>> 3) rb
      let vs ← unpackLoop lua n (i + 1) rest
      return v :: vs

/-- `luaseri_unpack`. -/
def unpack (lua : Lua) (bytes : List UInt8) : Except Error (List (Value Unit)) :=
  unpackLoop lua bytes.length 0 bytes

end SlgServer.LuaSeri
