import SlgServer.BigEndian
import SlgServer.Frames
import SlgServer.Scan
import Mathlib.Data.Nat.Notation
import Mathlib.Logic.Function.Basic

/-!
# The robot's side of the wire (`robot/player/net.lua`)

A request goes out as a frame: two bytes of length, two bytes of id, and the
message with its own two bytes of length. What comes in is put behind the bytes
left over from before; whole frames are taken off and handed to `deal_package`.

The loop that takes frames off is `Frames.drain` for the format of the frames
(`dataLoop_eq`), so requests arrive as they were sent, however the stream is cut
(`requests_arrive`).
-/

namespace SlgServer.RobotNet

open Frames Scan

/-- A Lua string. -/
abbrev Bytes : Type := List UInt8

/-! ## Strings (`string.byte`, `string.sub`, `string.pack`, `string.unpack`) -/

/-- `s:byte(i)`, within the string. -/
def byte (s : Bytes) (i : ℕ) : ℕ := (s.getD (i - 1) 0).toNat

/-- `s:sub(i, j)`, for `i` from 1 on. -/
def sub (s : Bytes) (i j : ℕ) : Bytes := (s.drop (i - 1)).take (j + 1 - i)

/-- `s:sub(i)`, for `i` from 1 on. -/
def subFrom (s : Bytes) (i : ℕ) : Bytes := s.drop (i - 1)

/-- Two bytes, the high one first. -/
def bigEndian (n : ℕ) : Bytes := [UInt8.ofNat (n / 256), UInt8.ofNat (n % 256)]

/-- The format `>H`; it raises an error on an overflow. -/
def packH (n : ℕ) : Option Bytes := if n < 65536 then some (bigEndian n) else none

/-- The format `>s2`; it raises an error on an overflow. -/
def packS2 (s : Bytes) : Option Bytes := (packH s.length).map (· ++ s)

/-- `string.unpack(">Hs2", data)`; it raises an error if the string is too short. -/
def unpackHs2 (data : Bytes) : Option (ℕ × Bytes) :=
  if data.length < 4 then none
  else
    let len := byte data 3 * 256 + byte data 4
    if data.length < 4 + len then none
    else some (byte data 1 * 256 + byte data 2, sub data 5 (4 + len))

/-! ## Sending and receiving -/

/-- What `send_request` writes to the socket, for the id of the name and the text of
the message. -/
def sendRequest (id : ℕ) (msgStr : Bytes) : Option Bytes := do
  let len := 2 + 2 + msgStr.length
  return (← packH len) ++ ((← packH id) ++ (← packS2 msgStr))

/-- What is kept for a socket. -/
structure Info : Type where
  /-- `info.last`: the bytes that are not a whole frame yet -/
  last : Bytes

/-- The module's state. -/
structure Net : Type where
  /-- `fds` -/
  fds : ℕ → Option Info
  /-- what `deal_package` got to handle: the socket, the id and the text. Nothing in
  the program reads this. -/
  dealt : List (ℕ × ℕ × Bytes)

/-- `connect`, for the socket it opens. -/
def connect (fd : ℕ) (net : Net) : Net :=
  { net with fds := Function.update net.fds fd (some ⟨[]⟩) }

/-- One round of the loop in `data`: the package at the front and what follows, or
`none` for a `break`. -/
def takePack (last : Bytes) : Option (Bytes × Bytes) :=
  if last.length < 2 then none
  else
    let len := byte last 1 * 256 + byte last 2
    if last.length < len + 2 then none
    else some (sub last 3 (2 + len), subFrom last (3 + len))

theorem takePack_shrinks {last pack rest : Bytes} (h : takePack last = some (pack, rest)) :
    rest.length < last.length := by
  simp only [takePack] at h
  split_ifs at h with h2 hlen
  obtain ⟨-, rfl⟩ := Prod.mk.inj (Option.some.inj h)
  rw [subFrom, List.length_drop]
  omega

/-- The loop in `data`, with `pack_list` as it grows. -/
def dataLoop (last : Bytes) (packList : List Bytes) : List Bytes × Bytes :=
  match _h : takePack last with
  | none => (packList, last)
  | some (pack, rest) => dataLoop rest (packList ++ [pack])
termination_by last.length
decreasing_by all_goals exact takePack_shrinks ‹_›

/-- `deal_package`, up to the call of the handler; `unpack` may raise an error. -/
def dealPackage (fd : ℕ) (data : Bytes) (net : Net) : Bool × Net :=
  match unpackHs2 data with
  | none => (false, net)
  | some m => (true, { net with dealt := net.dealt ++ [(fd, m)] })

/-- `data`, and whether it returns without an error. -/
def data (fd : ℕ) (str : Bytes) (net : Net) : Bool × Net :=
  match net.fds fd with
  | none => (true, net)
  | some info =>
    let (packList, last) := dataLoop (info.last ++ str) []
    scanAll (dealPackage fd) packList { net with fds := Function.update net.fds fd (some ⟨last⟩) }

/-- The loop of `recv_loop`, for the pieces the socket delivers. -/
def recvLoop (fd : ℕ) (chunks : List Bytes) (net : Net) : Bool × Net :=
  scanAll (data fd) chunks net

/-! ## The format -/

theorem length_bigEndian (n : ℕ) : (bigEndian n).length = 2 := rfl

theorem takePack_cons (x y : UInt8) (s : Bytes) :
    takePack (x :: y :: s) =
      if s.length < x.toNat * 256 + y.toNat then none
      else some (s.take (x.toNat * 256 + y.toNat), s.drop (x.toNat * 256 + y.toNat)) := by
  have hx : byte (x :: y :: s) 1 = x.toNat := rfl
  have hy : byte (x :: y :: s) 2 = y.toNat := rfl
  simp only [takePack, hx, hy, List.length_cons]
  rw [if_neg (by omega)]
  by_cases hlen : s.length < x.toNat * 256 + y.toNat
  · rw [if_pos (by omega), if_pos hlen]
  · rw [if_neg (by omega), if_neg hlen]
    have hsub : 2 + (x.toNat * 256 + y.toNat) + 1 - 3 = x.toNat * 256 + y.toNat := by omega
    have hfrom : 3 + (x.toNat * 256 + y.toNat) - 1 = x.toNat * 256 + y.toNat + 2 := by omega
    rw [sub, subFrom, hsub, hfrom]
    simp only [List.drop_succ_cons, List.drop_zero]

theorem bigEndian_eq_bytes (n : ℕ) : bigEndian n = BigEndian.bytes 2 n := by
  have hlow : UInt8.ofNat (n % 256) = UInt8.ofNat n := UInt8.ofNat_mod_size
  rw [bigEndian, hlow, ← Nat.shiftRight_eq_div_pow n 8]
  rfl

theorem bigEndian_eq (x y : UInt8) : bigEndian (x.toNat * 256 + y.toNat) = [x, y] := by
  rw [bigEndian_eq_bytes, ← BigEndian.value_pair]
  exact BigEndian.bytes_value [x, y]

theorem toNat_bigEndian {n : ℕ} (hn : n < 65536) :
    (UInt8.ofNat (n / 256)).toNat * 256 + (UInt8.ofNat (n % 256)).toNat = n := by
  rw [← BigEndian.value_pair, ← bigEndian, bigEndian_eq_bytes]
  exact BigEndian.value_bytes_of_lt hn

/-- The frames on the wire. -/
def wire : Framing UInt8 Bytes where
  Valid pack := pack.length < 65536
  encode pack := bigEndian pack.length ++ pack
  next := takePack
  next_eq_some := by
    intro s pack rest
    refine ⟨fun h => ?_, ?_⟩
    · match s with
      | [] | [_] => cases h
      | x :: y :: s =>
        have hx := x.toNat_lt
        have hy := y.toNat_lt
        rw [takePack_cons] at h
        split_ifs at h with hlen
        obtain ⟨rfl, rfl⟩ := Prod.mk.inj (Option.some.inj h)
        rw [List.length_take, Nat.min_eq_left (by omega), bigEndian_eq, List.append_assoc,
          List.take_append_drop]
        exact ⟨by omega, rfl⟩
    · rintro ⟨hpack, rfl⟩
      rw [bigEndian, List.append_assoc, List.cons_append, List.singleton_append, takePack_cons,
        toNat_bigEndian hpack, if_neg (by simp)]
      simp
  encode_ne_nil := by
    intro pack _ h
    cases h

/-- The loop takes off whole frames. -/
theorem dataLoop_eq (last : Bytes) (packList : List Bytes) :
    dataLoop last packList = (packList ++ (wire.drain last).1, (wire.drain last).2) := by
  induction last, packList using dataLoop.induct with
  | case1 last packList hnone =>
    rw [dataLoop, wire.drain_of_none hnone]
    split
    · simp
    · next hsome =>
      rw [hnone] at hsome
      cases hsome
  | case2 last packList pack rest hsome ih =>
    rw [dataLoop, wire.drain_of_some hsome]
    split
    · next hnone =>
      rw [hsome] at hnone
      cases hnone
    · next pack' rest' hsome' =>
      obtain ⟨rfl, rfl⟩ := Prod.mk.inj (Option.some.inj (hsome.symm.trans hsome'))
      rw [ih]
      simp

/-- Every round of the loop takes two bytes at least. -/
theorem length_dataLoop_le (last : Bytes) : 2 * (dataLoop last []).1.length ≤ last.length := by
  rw [dataLoop_eq, List.nil_append]
  refine wire.length_drain_le (fun pack _ => ?_) last
  rw [wire, List.length_append, length_bigEndian]
  omega

/-! ## Requests -/

/-- The package of a request. -/
def payload (r : ℕ × Bytes) : Bytes := bigEndian r.1 ++ (bigEndian r.2.length ++ r.2)

/-- A request that fits into the format. -/
def Fits (r : ℕ × Bytes) : Prop := r.1 ≤ 65535 ∧ r.2.length ≤ 65531

instance (r : ℕ × Bytes) : Decidable (Fits r) :=
  inferInstanceAs (Decidable (r.1 ≤ 65535 ∧ r.2.length ≤ 65531))

theorem valid_payload {r : ℕ × Bytes} (hr : Fits r) : wire.Valid (payload r) := by
  have hlen := hr.2
  simp only [wire, payload, List.length_append, length_bigEndian]
  omega

/-- A request that fits is written as the frame of its package. -/
theorem sendRequest_eq {r : ℕ × Bytes} (hr : Fits r) :
    sendRequest r.1 r.2 = some (wire.encode (payload r)) := by
  obtain ⟨hid, hlen⟩ := hr
  have hframe : packH (2 + 2 + r.2.length) = some (bigEndian (payload r).length) := by
    rw [packH, if_pos (by omega)]
    simp only [payload, List.length_append, length_bigEndian]
    congr 2
    omega
  have hpackId : packH r.1 = some (bigEndian r.1) := if_pos (by omega)
  have hpackLen : packH r.2.length = some (bigEndian r.2.length) := if_pos (by omega)
  simp only [sendRequest, packS2, hframe, hpackId, hpackLen]
  rfl

theorem unpackHs2_cons (w x y z : UInt8) (s : Bytes) :
    unpackHs2 (w :: x :: y :: z :: s) =
      if s.length < y.toNat * 256 + z.toNat then none
      else some (w.toNat * 256 + x.toNat, s.take (y.toNat * 256 + z.toNat)) := by
  have hw : byte (w :: x :: y :: z :: s) 1 = w.toNat := rfl
  have hx : byte (w :: x :: y :: z :: s) 2 = x.toNat := rfl
  have hy : byte (w :: x :: y :: z :: s) 3 = y.toNat := rfl
  have hz : byte (w :: x :: y :: z :: s) 4 = z.toNat := rfl
  simp only [unpackHs2, hw, hx, hy, hz, List.length_cons]
  rw [if_neg (by omega)]
  by_cases hlen : s.length < y.toNat * 256 + z.toNat
  · rw [if_pos (by omega), if_pos hlen]
  · rw [if_neg (by omega), if_neg hlen]
    have hsub : 4 + (y.toNat * 256 + z.toNat) + 1 - 5 = y.toNat * 256 + z.toNat := by omega
    rw [sub, hsub]
    simp only [List.drop_succ_cons, List.drop_zero]

/-- What was packed is unpacked. -/
theorem unpackHs2_payload {r : ℕ × Bytes} (hr : Fits r) : unpackHs2 (payload r) = some r := by
  obtain ⟨hid, hlen⟩ := hr
  simp only [payload, bigEndian, List.cons_append, List.nil_append]
  rw [unpackHs2_cons, toNat_bigEndian (by omega), toNat_bigEndian (by omega),
    if_neg (Nat.lt_irrefl _), List.take_length]

/-! ## Receiving -/

/-- The state after the requests `rs` have come in on a socket, with the bytes `last`
left over. -/
def received (fd : ℕ) (rs : List (ℕ × Bytes)) (last : Bytes) (net : Net) : Net where
  fds := Function.update net.fds fd (some ⟨last⟩)
  dealt := net.dealt ++ rs.map fun r => (fd, r)

theorem received_received (fd : ℕ) (rs rs' : List (ℕ × Bytes)) (last last' : Bytes) (net : Net) :
    received fd rs' last' (received fd rs last net) = received fd (rs ++ rs') last' net := by
  simp [received]

/-- Packages that unpack are dealt with in order. -/
theorem scanAll_dealPackage (fd : ℕ) {rs : List (ℕ × Bytes)} (hrs : ∀ r ∈ rs, Fits r) (net : Net) :
    scanAll (dealPackage fd) (rs.map payload) net =
      (true, { net with dealt := net.dealt ++ rs.map fun r => (fd, r) }) := by
  induction rs generalizing net with
  | nil => simp
  | cons r rs ih =>
    have hdeal : dealPackage fd (payload r) net =
        (true, { net with dealt := net.dealt ++ [(fd, r)] }) := by
      rw [dealPackage, unpackHs2_payload (hrs r (List.mem_cons_self ..))]
    rw [List.map_cons, scanAll_cons_true hdeal, ih fun r hr => hrs r (List.mem_cons_of_mem _ hr)]
    simp

/-- One piece: the packages of the requests it completes are dealt with. -/
theorem data_received (fd : ℕ) {rs : List (ℕ × Bytes)} (hrs : ∀ r ∈ rs, Fits r)
    {last last' str : Bytes} (hdrain : wire.drain (last ++ str) = (rs.map payload, last'))
    (gs : List (ℕ × Bytes)) (net : Net) :
    data fd str (received fd gs last net) = (true, received fd (gs ++ rs) last' net) := by
  have hinfo : (received fd gs last net).fds fd = some ⟨last⟩ := by simp [received]
  rw [data, hinfo]
  simp only [dataLoop_eq, hdrain, List.nil_append]
  rw [scanAll_dealPackage fd hrs, ← received_received]
  rfl

/-- The step of the induction: if the pieces complete the requests `rs`, the first of
them completes some of these, and the others the rest. -/
theorem drain_piece {rs : List (ℕ × Bytes)} {last tail c s : Bytes}
    (hdrain : wire.drain (last ++ (c ++ s)) = (rs.map payload, tail)) :
    ∃ gs hs last', rs = gs ++ hs ∧ wire.drain (last ++ c) = (gs.map payload, last') ∧
      wire.drain (last' ++ s) = (hs.map payload, tail) := by
  rw [← List.append_assoc, wire.drain_append] at hdrain
  obtain ⟨hpacks, htail⟩ := Prod.mk.inj hdrain
  obtain ⟨gs, hs, rfl, hgs, hhs⟩ := List.append_eq_map_iff.mp hpacks
  refine ⟨gs, hs, (wire.drain (last ++ c)).2, rfl, ?_, ?_⟩
  · rw [hgs]
  · rw [hhs, ← htail]

/-- **Pieces that make up requests**, and a rest without a whole frame, hand over
exactly these requests and leave the rest. -/
theorem recvLoop_received (fd : ℕ) {chunks : List Bytes} {rs : List (ℕ × Bytes)}
    (hrs : ∀ r ∈ rs, Fits r) {last tail : Bytes} (hlast : takePack last = none)
    (hdrain : wire.drain (last ++ chunks.flatten) = (rs.map payload, tail))
    (gs : List (ℕ × Bytes)) (net : Net) :
    recvLoop fd chunks (received fd gs last net) = (true, received fd (gs ++ rs) tail net) := by
  induction chunks generalizing last rs gs with
  | nil =>
    rw [List.flatten_nil, List.append_nil, wire.drain_of_none hlast] at hdrain
    obtain ⟨hnil, rfl⟩ := Prod.mk.inj hdrain
    obtain rfl := List.map_eq_nil_iff.mp hnil.symm
    rw [List.append_nil]
    rfl
  | cons c cs ih =>
    rw [List.flatten_cons] at hdrain
    obtain ⟨fs, hs, last', rfl, hfs, hhs⟩ := drain_piece hdrain
    have hdata := data_received fd (fun r hr => hrs r (List.mem_append_left _ hr)) hfs gs net
    have hlast' : takePack last' = none := (wire.drain_eq_iff.mp hfs).2.2
    rw [recvLoop, scanAll_cons_true hdata, ← List.append_assoc]
    exact ih (fun r hr => hrs r (List.mem_append_right _ hr)) hlast' hhs (gs ++ fs)

theorem mapM_sendRequest {rs : List (ℕ × Bytes)} (hrs : ∀ r ∈ rs, Fits r) :
    rs.mapM (fun r => sendRequest r.1 r.2) = some (rs.map fun r => wire.encode (payload r)) := by
  induction rs with
  | nil => rfl
  | cons r rs ih =>
    rw [List.mapM_cons, sendRequest_eq (hrs r (List.mem_cons_self ..)),
      ih fun r hr => hrs r (List.mem_cons_of_mem _ hr)]
    rfl

/-- **Requests survive any cutting.** Requests that fit are written as frames; in
whatever pieces the frames come in, each piece leaves exactly the bytes of the frame
that is not whole yet, all requests before it have been handed over in order, and in
the end all have and nothing is left. And the loop ends on any bytes, after half as
many rounds as there are bytes at most. -/
theorem requests_arrive {rs : List (ℕ × Bytes)} (hrs : ∀ r ∈ rs, Fits r) :
    (∃ frames, rs.mapM (fun r => sendRequest r.1 r.2) = some frames ∧
      ∀ (chunks : List Bytes) (fd : ℕ) (net : Net), chunks.flatten = frames.flatten →
        recvLoop fd chunks (connect fd net) = (true, received fd rs [] net) ∧
        ∀ before after, chunks = before ++ after → ∃ gs hs last, rs = gs ++ hs ∧
          recvLoop fd before (connect fd net) = (true, received fd gs last net) ∧
          before.flatten = (frames.take gs.length).flatten ++ last ∧ takePack last = none) ∧
      ∀ last, 2 * (dataLoop last []).1.length ≤ last.length := by
  refine ⟨⟨_, mapM_sendRequest hrs, fun chunks fd net hchunks => ?_⟩, length_dataLoop_le⟩
  have hconnect : connect fd net = received fd [] [] net := by simp [connect, received]
  have hdrain : wire.drain ([] ++ chunks.flatten) = (rs.map payload, []) := by
    refine wire.drain_eq_iff.mpr ⟨fun pack hpack => ?_, ?_, rfl⟩
    · obtain ⟨r, hr, rfl⟩ := List.mem_map.mp hpack
      exact valid_payload (hrs r hr)
    · rw [hchunks, List.flatMap_map, List.flatMap_def, List.append_nil, List.nil_append]
  rw [hconnect]
  refine ⟨recvLoop_received fd hrs rfl hdrain [] net, ?_⟩
  rintro before after rfl
  rw [List.flatten_append] at hdrain
  obtain ⟨gs, hs, last, rfl, hgs, -⟩ := drain_piece hdrain
  obtain ⟨-, hbefore, hlast⟩ := wire.drain_eq_iff.mp hgs
  refine ⟨gs, hs, last, rfl, ?_, ?_, hlast⟩
  · exact recvLoop_received fd (fun r hr => hrs r (List.mem_append_left _ hr)) rfl hgs [] net
  · rw [List.nil_append, List.flatMap_map, List.flatMap_def] at hbefore
    rw [hbefore, List.map_append, List.take_left' (List.length_map ..)]

/-- Two requests; the first frame is cut in its length, the second after its id. -/
theorem requests_arrive_twoRequests :
    (recvLoop 5 [[0], [6, 0, 1, 0, 2, 65, 66, 0, 4, 0, 2], [], [0, 0]]
      (connect 5 ⟨fun _ => none, []⟩)).2.dealt = [(5, 1, [65, 66]), (5, 2, [])] := by
  have hfits : ∀ r ∈ [(1, [65, 66]), (2, [])], Fits r := by decide
  obtain ⟨⟨frames, hframes, h⟩, -⟩ := requests_arrive hfits
  obtain rfl : [[0, 6, 0, 1, 0, 2, 65, 66], [0, 4, 0, 2, 0, 0]] = frames :=
    Option.some.inj (Eq.trans (by decide) hframes)
  rw [(h _ 5 _ (by decide)).1]
  rfl

end SlgServer.RobotNet
