import SlgServer.RingBuffer
import SlgServer.RobotNet
import Mathlib.Data.List.Sigma

/-!
# Packages of many sockets (`skynet/lualib-src/lua-netpack.c`)

The gate gets the bytes of all its sockets in pieces, in any order of the sockets. A
package that has come in part is kept as an `Uncomplete`, in the chain that belongs to the
hash of its socket; packages that have come whole are handed over at once, or put into a
ring if a piece completes more than one of them.

For each socket this is `Frames.drain`: what is kept of it is the rest that `drain` leaves
(`Queue.rest`), and the packages are those that `drain` finds (`filterData_completed`).
-/

namespace SlgServer.Netpack

open Frames
open RobotNet (Bytes wire bigEndian)

/-- `QUEUESIZE`. -/
def queueSize : ℕ := 1024

/-- `HASHSIZE`. -/
def hashSize : ℕ := 4096

/-- `read_size`, for the two bytes of the buffer. -/
def readSize (high low : UInt8) : ℕ := high.toNat <<< 8 ||| low.toNat

theorem readSize_eq (high low : UInt8) : readSize high low = high.toNat * 256 + low.toNat := by
  have hlow : low.toNat < 2 ^ 8 := low.toNat_lt
  rw [readSize, ← Nat.shiftLeft_add_eq_or_of_lt hlow, Nat.shiftLeft_eq]

theorem readSize_lt (high low : UInt8) : readSize high low < 65536 := by
  have hhigh := high.toNat_lt
  have hlow := low.toNat_lt
  rw [readSize_eq]
  omega

/-- A package that has come in part. -/
inductive Uncomplete : Type where
  /-- `read` is -1: of the length, only the byte `header` has come -/
  | header (byte : UInt8)
  /-- of the `size` bytes, `read` have come; they are in `buffer` -/
  | body (size : ℕ) (buffer : Bytes) (size_lt : size < 65536) (read_lt : buffer.length < size)

/-- `struct queue`. The numbers of sockets are not negative. -/
structure Queue : Type where
  /-- `cap`, `head`, `tail` and `queue`: the packages that wait, with their sockets -/
  queue : RingBuffer (ℕ × Bytes)
  /-- the chains of packages that have come in part, by the hashes of their sockets -/
  hash : ℕ → List (Σ _ : ℕ, Uncomplete)

/-- `q->hash[h] = chain`. -/
def Queue.setChain (q : Queue) (h : ℕ) (chain : List (Σ _ : ℕ, Uncomplete)) : Queue :=
  { q with hash := Function.update q.hash h chain }

/-- `hash_fd`. -/
def hashFd (fd : ℕ) : ℕ :=
  let a := fd >>> 24
  let b := fd >>> 12
  let c := fd
  (a + b + c) % 2 ^ 32 % hashSize

/-- `find_uncomplete`: what has come of a package of the socket; it is taken off its
chain. There is no queue before the first package that has to be kept. -/
def findUncomplete (q : Option Queue) (fd : ℕ) : Option Uncomplete × Option Queue :=
  match q with
  | none => (none, none)
  | some q =>
    let h := hashFd fd
    let (uc, chain) := (q.hash h).kextract fd
    (uc, some (q.setChain h chain))

/-- `get_queue`. -/
def getQueue (q : Option Queue) : Queue :=
  q.getD ⟨RingBuffer.empty queueSize (Nat.zero_lt_succ _), fun _ => []⟩

/-- `push_data`, with `expand_queue`. -/
def pushData (q : Option Queue) (fd : ℕ) (buffer : Bytes) : Option Queue :=
  let q := getQueue q
  some { q with
    queue := q.queue.push (· + queueSize) (fun _ _ => Nat.lt_add_of_pos_right (by decide))
      (fd, buffer) }

/-- `save_uncomplete`, for the package `uc`. -/
def saveUncomplete (q : Option Queue) (fd : ℕ) (uc : Uncomplete) : Option Queue :=
  let q := getQueue q
  let h := hashFd fd
  some (q.setChain h (⟨fd, uc⟩ :: q.hash h))

/-- `push_more`. It is called with a byte at least. -/
def pushMore (q : Option Queue) (fd : ℕ) : Bytes → Option Queue
  | [] => q
  | [byte] => saveUncomplete q fd (.header byte)
  | high :: low :: buffer =>
    let packSize := readSize high low
    if h : buffer.length < packSize then
      saveUncomplete q fd (.body packSize buffer (readSize_lt high low) h)
    else
      let q := pushData q fd (buffer.take packSize)
      let buffer' := buffer.drop packSize
      if buffer'.length > 0 then pushMore q fd buffer' else q
termination_by buffer => buffer.length
decreasing_by
  rw [List.length_drop, List.length_cons, List.length_cons]
  omega

/-- What `filter` returns besides the queue: the type of the event and its arguments.
Texts are left out. -/
inductive Filtered : Type where
  /-- nothing -/
  | nothing
  /-- a package -/
  | data (fd : ℕ) (pack : Bytes)
  /-- packages are in the queue -/
  | more
  /-- an error at a socket -/
  | error (fd : ℕ)
  /-- a new socket -/
  | open (fd : ℕ)
  /-- the end of a socket -/
  | close (fd : ℕ)
  /-- `size` KBytes wait to be sent -/
  | warning (fd size : ℕ)
  deriving DecidableEq

/-- The branch of `filter_data_` for a package of which `read` has come, once its size is
known. -/
def fillUncomplete (q : Option Queue) (fd size : ℕ) (hsize : size < 65536) (read buffer : Bytes) :
    Option Queue × Filtered :=
  let need := size - read.length
  if h : buffer.length < need then
    let uc := .body size (read ++ buffer) hsize (by rw [List.length_append]; omega)
    (saveUncomplete q fd uc, .nothing)
  else
    let pack := read ++ buffer.take need
    let buffer := buffer.drop need
    if buffer.length = 0 then (q, .data fd pack)
    else (pushMore (pushData q fd pack) fd buffer, .more)

/-- `filter_data`. The socket server passes on no piece without a byte. -/
def filterData (q : Option Queue) (fd : ℕ) (buffer : Bytes) : Option Queue × Filtered :=
  match findUncomplete q fd, buffer with
  | (_, q), [] => (q, .nothing)
  | (some (.header high), q), low :: buffer =>
    fillUncomplete q fd (readSize high low) (readSize_lt high low) [] buffer
  | (some (.body size read hsize _), q), buffer => fillUncomplete q fd size hsize read buffer
  | (none, q), [byte] => (saveUncomplete q fd (.header byte), .nothing)
  | (none, q), high :: low :: buffer =>
    let packSize := readSize high low
    if h : buffer.length < packSize then
      (saveUncomplete q fd (.body packSize buffer (readSize_lt high low) h), .nothing)
    else if buffer.length = packSize then (q, .data fd buffer)
    else
      let q := pushData q fd (buffer.take packSize)
      (pushMore q fd (buffer.drop packSize), .more)

/-- `close_uncomplete`. -/
def closeUncomplete (q : Option Queue) (fd : ℕ) : Option Queue := (findUncomplete q fd).2

/-- `skynet_socket_message`, as far as `filter` handles it. -/
inductive Message : Type where
  /-- `SKYNET_SOCKET_TYPE_DATA` -/
  | data (id : ℕ) (buffer : Bytes)
  /-- `SKYNET_SOCKET_TYPE_CONNECT` -/
  | connect (id : ℕ)
  /-- `SKYNET_SOCKET_TYPE_CLOSE` -/
  | close (id : ℕ)
  /-- `SKYNET_SOCKET_TYPE_ACCEPT`, for the new socket -/
  | accept (ud : ℕ)
  /-- `SKYNET_SOCKET_TYPE_ERROR` -/
  | error (id : ℕ)
  /-- `SKYNET_SOCKET_TYPE_WARNING` -/
  | warning (id ud : ℕ)

/-- `filter`. -/
def filter (q : Option Queue) : Message → Option Queue × Filtered
  | .data id buffer => filterData q id buffer
  | .connect _ => (q, .nothing)
  | .close id => (closeUncomplete q id, .close id)
  | .accept ud => (q, .open ud)
  | .error id => (closeUncomplete q id, .error id)
  | .warning id ud => (q, .warning id ud)

/-- `pop`. -/
def pop (q : Option Queue) : Option ((ℕ × Bytes) × Option Queue) :=
  q.bind fun q => q.queue.pop.map fun (pack, queue) => (pack, some { q with queue := queue })

/-! ## What is in the queue -/

/-- The bytes that have come of a package. -/
def Uncomplete.bytes : Uncomplete → Bytes
  | .header byte => [byte]
  | .body size buffer _ _ => bigEndian size ++ buffer

/-- The packages that wait. -/
def waiting (q : Option Queue) : List (ℕ × Bytes) := (getQueue q).queue.toList

/-- What is kept of a package of the socket. -/
def kept (q : Option Queue) (fd : ℕ) : Option Uncomplete :=
  ((getQueue q).hash (hashFd fd)).dlookup fd

/-- The bytes of the socket that are not a whole package yet. -/
def rest (q : Option Queue) (fd : ℕ) : Bytes := ((kept q fd).map Uncomplete.bytes).getD []

/-- No chain has two packages of one socket. -/
def Distinct (q : Option Queue) : Prop := ∀ h, ((getQueue q).hash h).NodupKeys

/-- `q'` is `q` after the packages `packs` of the socket `fd` were put behind the others, and
with the bytes `last` kept for it. -/
structure Took (q q' : Option Queue) (fd : ℕ) (packs : List Bytes) (last : Bytes) : Prop where
  waiting : waiting q' = waiting q ++ packs.map fun pack => (fd, pack)
  rest : rest q' = Function.update (rest q) fd last
  distinct : Distinct q'

theorem waiting_none : waiting none = [] := rfl

theorem rest_none (fd : ℕ) : rest none fd = [] := rfl

theorem distinct_none : Distinct none := fun _ => List.nodupKeys_nil

theorem rest_of_kept {q : Option Queue} {fd : ℕ} {uc : Uncomplete} (h : kept q fd = some uc) :
    rest q fd = uc.bytes := by
  rw [rest, h]
  rfl

theorem rest_of_not_kept {q : Option Queue} {fd : ℕ} (h : kept q fd = none) : rest q fd = [] := by
  rw [rest, h]
  rfl

theorem Took.refl {q : Option Queue} (hq : Distinct q) (fd : ℕ) :
    Took q q fd [] (Netpack.rest q fd) :=
  ⟨(List.append_nil _).symm, (Function.update_eq_self ..).symm, hq⟩

theorem Took.trans {q q' q'' : Option Queue} {fd : ℕ} {packs packs' : List Bytes}
    {last last' : Bytes} (h : Took q q' fd packs last) (h' : Took q' q'' fd packs' last') :
    Took q q'' fd (packs ++ packs') last' := by
  refine ⟨?_, ?_, h'.distinct⟩
  · rw [h'.waiting, h.waiting, List.append_assoc, List.map_append]
  · rw [h'.rest, h.rest, Function.update_idem]

/-! ## What the functions do -/

theorem getQueue_some (q : Queue) : getQueue (some q) = q := rfl

/-- Another chain for the hash of `fd`, which differs from the old one at `fd` only. -/
theorem took_setChain {q : Queue} (hq : Distinct (some q)) {fd : ℕ}
    {chain : List (Σ _ : ℕ, Uncomplete)} (hchain : chain.NodupKeys)
    (hsame : ∀ fd', fd' ≠ fd → chain.dlookup fd' = (q.hash (hashFd fd)).dlookup fd') :
    kept (some (q.setChain (hashFd fd) chain)) fd = chain.dlookup fd ∧
      Took (some q) (some (q.setChain (hashFd fd) chain)) fd []
        (((chain.dlookup fd).map Uncomplete.bytes).getD []) := by
  have hchains (h : ℕ) : (getQueue (some (q.setChain (hashFd fd) chain))).hash h =
      Function.update q.hash (hashFd fd) chain h := rfl
  have hkept : kept (some (q.setChain (hashFd fd) chain)) fd = chain.dlookup fd := by
    rw [kept, hchains, Function.update_self]
  refine ⟨hkept, (List.append_nil _).symm, funext fun fd' => ?_, fun h => ?_⟩
  · rcases eq_or_ne fd' fd with rfl | hfd
    · rw [Function.update_self, rest, hkept]
    · rw [Function.update_of_ne hfd, rest, rest, kept, kept, hchains, getQueue_some]
      rcases eq_or_ne (hashFd fd') (hashFd fd) with hhash | hhash
      · rw [hhash, Function.update_self, hsame fd' hfd]
      · rw [Function.update_of_ne hhash]
  · rw [hchains]
    rcases eq_or_ne h (hashFd fd) with rfl | hh
    · rw [Function.update_self]
      exact hchain
    · rw [Function.update_of_ne hh]
      exact hq h

/-- `find_uncomplete` finds what is kept, and nothing is kept then. -/
theorem findUncomplete_spec {q : Option Queue} (hq : Distinct q) (fd : ℕ) :
    (findUncomplete q fd).1 = kept q fd ∧ kept (findUncomplete q fd).2 fd = none ∧
      Took q (findUncomplete q fd).2 fd [] [] := by
  cases q with
  | none =>
    refine ⟨rfl, rfl, (List.append_nil _).symm, ?_, distinct_none⟩
    exact (Function.update_eq_self fd _).symm
  | some q =>
    have hfound : findUncomplete (some q) fd = (((q.hash (hashFd fd)).kextract fd).1,
        some (q.setChain (hashFd fd) ((q.hash (hashFd fd)).kextract fd).2)) := rfl
    have hdistinct : (q.hash (hashFd fd)).NodupKeys := hq (hashFd fd)
    have hgone := List.dlookup_kerase fd hdistinct
    obtain ⟨hkept, htook⟩ := took_setChain hq (hdistinct.kerase fd)
      fun fd' hfd => List.dlookup_kerase_ne hfd
    rw [hgone] at hkept htook
    rw [hfound, List.kextract_eq_dlookup_kerase]
    exact ⟨rfl, hkept, htook⟩

/-- `save_uncomplete` keeps the package, if none was kept of the socket. -/
theorem saveUncomplete_spec {q : Option Queue} (hq : Distinct q) {fd : ℕ} (hfd : kept q fd = none)
    (uc : Uncomplete) : Took q (saveUncomplete q fd uc) fd [] uc.bytes := by
  have hq' : Distinct (some (getQueue q)) := hq
  have hnodup : (⟨fd, uc⟩ :: (getQueue q).hash (hashFd fd)).NodupKeys :=
    List.nodupKeys_cons.mpr ⟨List.dlookup_eq_none.mp hfd, hq _⟩
  obtain ⟨-, htook⟩ := took_setChain hq' hnodup
    fun fd' hne => List.dlookup_cons_ne _ _ hne
  rw [List.dlookup_cons_eq] at htook
  exact ⟨htook.waiting, htook.rest, htook.distinct⟩

theorem pushData_spec {q : Option Queue} (hq : Distinct q) (fd : ℕ) (buffer : Bytes) :
    Took q (pushData q fd buffer) fd [buffer] (rest q fd) :=
  ⟨RingBuffer.toList_push .., (Function.update_eq_self ..).symm, hq⟩

/-! ## Packages -/

/-- The first package of a buffer, and those that follow it. -/
theorem drain_cons (high low : UInt8) (buffer : Bytes) :
    wire.drain (high :: low :: buffer) =
      if buffer.length < readSize high low then ([], high :: low :: buffer)
      else (buffer.take (readSize high low) ::
          (wire.drain (buffer.drop (readSize high low))).1,
        (wire.drain (buffer.drop (readSize high low))).2) := by
  have hnext := RobotNet.takePack_cons high low buffer
  rw [← readSize_eq] at hnext
  split_ifs at hnext ⊢ with hlen
  · exact wire.drain_of_none hnext
  · exact wire.drain_of_some hnext

theorem drain_singleton (byte : UInt8) : wire.drain [byte] = ([], [byte]) :=
  wire.drain_of_none rfl

theorem drain_nil : wire.drain [] = ([], []) := wire.drain_of_none rfl

theorem body_bytes (high low : UInt8) (buffer : Bytes) :
    bigEndian (readSize high low) ++ buffer = high :: low :: buffer := by
  rw [readSize_eq, RobotNet.bigEndian_eq]
  rfl

/-- A package of which `read` has come, and what comes next. -/
theorem drain_body {size : ℕ} (hsize : size < 65536) (buffer : Bytes) :
    wire.drain (bigEndian size ++ buffer) =
      if buffer.length < size then ([], bigEndian size ++ buffer)
      else (buffer.take size :: (wire.drain (buffer.drop size)).1,
        (wire.drain (buffer.drop size)).2) := by
  have hread : readSize (UInt8.ofNat (size / 256)) (UInt8.ofNat (size % 256)) = size := by
    rw [readSize_eq]
    exact RobotNet.toNat_bigEndian hsize
  have hdrain := drain_cons (UInt8.ofNat (size / 256)) (UInt8.ofNat (size % 256)) buffer
  rwa [hread] at hdrain

/-- `push_more` takes off the packages of the buffer and keeps the rest. -/
theorem pushMore_spec {q : Option Queue} (hq : Distinct q) {fd : ℕ} (hfd : kept q fd = none)
    (buffer : Bytes) :
    Took q (pushMore q fd buffer) fd (wire.drain buffer).1 (wire.drain buffer).2 := by
  induction q, buffer using pushMore.induct fd with
  | case1 q =>
    rw [pushMore, drain_nil, ← rest_of_not_kept hfd]
    exact Took.refl hq fd
  | case2 q byte =>
    rw [pushMore, drain_singleton]
    exact saveUncomplete_spec hq hfd _
  | case3 q high low buffer packSize hlen =>
    rw [pushMore, drain_cons, if_pos hlen, dif_pos hlen, ← body_bytes]
    exact saveUncomplete_spec hq hfd _
  | case4 q high low buffer packSize hlen q' buffer' hpos ih =>
    have hdata := pushData_spec hq fd (buffer.take packSize)
    rw [pushMore, drain_cons, if_neg hlen, dif_neg hlen, if_pos hpos]
    exact hdata.trans (ih hdata.distinct hfd)
  | case5 q high low buffer packSize hlen buffer' hnil =>
    have hdata := pushData_spec hq fd (buffer.take packSize)
    have hdrop : buffer.drop packSize = [] :=
      List.eq_nil_of_length_eq_zero (Nat.eq_zero_of_not_pos hnil)
    rw [pushMore, drain_cons, if_neg hlen, dif_neg hlen, if_neg hnil, hdrop, drain_nil,
      ← rest_of_not_kept hfd]
    exact hdata

/-- What `filter_data` does with a piece that completes the packages `packs` of a socket and
leaves the bytes `last`. -/
inductive Completed (q : Option Queue) (fd : ℕ) :
    List Bytes → Bytes → Option Queue × Filtered → Prop where
  /-- no package: nothing is returned -/
  | nothing {q' last} : Took q q' fd [] last → Completed q fd [] last (q', .nothing)
  /-- one package and no byte after it: it is returned -/
  | data {q' pack} : Took q q' fd [] [] → Completed q fd [pack] [] (q', .data fd pack)
  /-- all packages are put into the queue -/
  | more {q' packs last} : Took q q' fd packs last → Completed q fd packs last (q', .more)

theorem Completed.after {q q' : Option Queue} {fd : ℕ} {packs : List Bytes} {last : Bytes}
    {p : Option Queue × Filtered} (hfound : Took q q' fd [] []) (h : Completed q' fd packs last p) :
    Completed q fd packs last p := by
  cases h with
  | nothing h => exact .nothing (hfound.trans h)
  | data h => exact .data (hfound.trans h)
  | more h => exact .more (hfound.trans h)

/-- A piece for a package that has come in part. -/
theorem fillUncomplete_completed {q : Option Queue} (hq : Distinct q) {fd : ℕ}
    (hfd : kept q fd = none) {size : ℕ} (hsize : size < 65536) {read : Bytes}
    (hread : read.length ≤ size) (buffer : Bytes) :
    Completed q fd (wire.drain (bigEndian size ++ (read ++ buffer))).1
      (wire.drain (bigEndian size ++ (read ++ buffer))).2
      (fillUncomplete q fd size hsize read buffer) := by
  have hlength : (read ++ buffer).length = read.length + buffer.length := List.length_append
  rw [drain_body hsize, fillUncomplete]
  by_cases hneed : buffer.length < size - read.length
  · rw [dif_pos hneed, if_pos (by omega)]
    exact .nothing (saveUncomplete_spec hq hfd _)
  · have htake : (read ++ buffer).take size = read ++ buffer.take (size - read.length) := by
      rw [List.take_append, List.take_of_length_le hread]
    have hdrop : (read ++ buffer).drop size = buffer.drop (size - read.length) := by
      rw [List.drop_append, List.drop_of_length_le hread, List.nil_append]
    rw [dif_neg hneed, if_neg (by omega), htake, hdrop]
    dsimp only
    split_ifs with hnil
    · rw [List.eq_nil_of_length_eq_zero hnil, drain_nil]
      have hrefl := Took.refl hq fd
      rw [rest_of_not_kept hfd] at hrefl
      exact .data hrefl
    · have hdata := pushData_spec hq fd (read ++ buffer.take (size - read.length))
      exact .more (hdata.trans (pushMore_spec hdata.distinct hfd _))

/-- **`filter_data` is `drain`**: with the bytes kept of a socket before it, a piece
completes the packages that `drain` finds, and the bytes that it leaves are kept; nothing
changes for other sockets, whatever their chains. -/
theorem filterData_completed {q : Option Queue} (hq : Distinct q) (fd : ℕ) {buffer : Bytes}
    (hbuffer : buffer ≠ []) :
    Completed q fd (wire.drain (rest q fd ++ buffer)).1 (wire.drain (rest q fd ++ buffer)).2
      (filterData q fd buffer) := by
  obtain ⟨huc, hfd, hfound⟩ := findUncomplete_spec hq fd
  unfold filterData
  rcases hfind : findUncomplete q fd with ⟨uc, q'⟩
  rw [hfind] at huc hfd hfound
  dsimp only at huc hfd hfound
  have hq' := hfound.distinct
  apply Completed.after hfound
  match uc, buffer with
  | _, [] => exact absurd rfl hbuffer
  | some (.header high), low :: buffer =>
    rw [rest_of_kept huc.symm, Uncomplete.bytes, List.singleton_append, ← body_bytes]
    have hread : ([] : Bytes).length ≤ readSize high low := Nat.zero_le _
    exact fillUncomplete_completed hq' hfd (readSize_lt high low) hread buffer
  | some (.body size read hsize hread), byte :: buffer =>
    rw [rest_of_kept huc.symm, Uncomplete.bytes, List.append_assoc]
    exact fillUncomplete_completed hq' hfd hsize (Nat.le_of_lt hread) (byte :: buffer)
  | none, [byte] =>
    rw [rest_of_not_kept huc.symm, List.nil_append, drain_singleton]
    exact .nothing (saveUncomplete_spec hq' hfd (.header byte))
  | none, high :: low :: buffer =>
    rw [rest_of_not_kept huc.symm, List.nil_append, drain_cons]
    dsimp only
    split_ifs with hless hsize
    · rw [← body_bytes]
      exact .nothing (saveUncomplete_spec hq' hfd _)
    · have hrefl := Took.refl hq' fd
      rw [rest_of_not_kept hfd] at hrefl
      rw [← hsize, List.take_length, List.drop_length, drain_nil]
      exact .data hrefl
    · have hdata := pushData_spec hq' fd (buffer.take (readSize high low))
      exact .more (hdata.trans (pushMore_spec hdata.distinct hfd _))

/-- At the end of a socket nothing is kept of it. -/
theorem closeUncomplete_spec {q : Option Queue} (hq : Distinct q) (fd : ℕ) :
    Took q (closeUncomplete q fd) fd [] [] := (findUncomplete_spec hq fd).2.2

/-- `pop` takes out the package that has waited longest. -/
theorem pop_spec (q : Option Queue) :
    (waiting q = [] ∧ pop q = none) ∨
      ∃ pack q', pop q = some (pack, q') ∧ waiting q = pack :: waiting q' ∧ rest q' = rest q ∧
        (Distinct q → Distinct q') := by
  cases q with
  | none => exact .inl ⟨rfl, rfl⟩
  | some q =>
    have hpop : pop (some q) =
        q.queue.pop.map fun (pack, queue) => (pack, some { q with queue := queue }) := rfl
    rw [hpop]
    rcases hqueue : q.queue.pop with _ | ⟨pack, queue⟩
    · exact .inl ⟨RingBuffer.pop_eq_none.mp hqueue, rfl⟩
    · exact .inr ⟨pack, _, rfl, RingBuffer.pop_eq_some hqueue, rfl, id⟩

end SlgServer.Netpack
