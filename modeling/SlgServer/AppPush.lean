import SlgServer.AppSessions
import SlgServer.RoomMgr

/-!
# Pushed messages (`service/area/room.lua`)

A room of the area service pushes messages to its players through their base apps.
The way is right to the end: the seat's base app gets account, name and table, finds
the player and its socket. But `sock_mgr:send` hands `packer.pack` the id of the
message in the place of its table.
-/

namespace SlgServer.App

open RoomMgr (PlayerInfo)

variable {A M B : Type} [DecidableEq A]

/-! ## The room -/

/-- A room of the area service. -/
structure AreaRoom (A : Type) : Type where
  /-- `id` -/
  id : ℕ
  /-- `player_list` -/
  playerList : List (PlayerInfo A)

/-- A message to a base app, by the address of the base app. -/
abbrev Sent (A M : Type) : Type := ℕ × Event A M

/-- `send_client`; the seats are numbered from 1, and an empty one raises. -/
def AreaRoom.sendClient (room : AreaRoom A) (seat : ℕ) (protoName : String) (msg : Table A M) :
    Option (Sent A M) :=
  if seat = 0 then none
  else room.playerList[seat - 1]?.map fun player =>
    (player.baseApp, .sendtoClient (some player.account) protoName msg)

/-- The base apps after one of them has handled a message. -/
def deliver (c : Codec A M B) (apps : ℕ → State A B) (m : Sent A M) : Option (ℕ → State A B) :=
  (step c (apps m.1) m.2).map (Function.update apps m.1)

/-- The socket of the player of an account. -/
def State.socketOf (s : State A B) (account : A) : Option ℕ :=
  ((s.playerTbl account).bind (s.players[·]?)).map Player.fd

/-! ## What is written -/

omit [DecidableEq A] in
/-- **A message for an account** is written to the socket of its player, as its id
twice. -/
theorem written_sendtoClient {c : Codec A M B} {s : State A B} {account : A} {fd : ℕ}
    (hfd : s.socketOf account = some fd) (protoName : String) (msg : Table A M) :
    s.sendtoClient c (some account) protoName msg =
      s.write fd (c.pack (c.nameToId protoName) (.number (c.nameToId protoName))) := by
  obtain ⟨p, hp, rfl⟩ := Option.map_eq_some_iff.mp hfd
  simp [State.sendtoClient, hp, State.send]

/-- **Pushed messages never arrive with their content.** When a room pushes a message
to a seat whose player is logged in on its base app, the bytes written to the
player's socket are not the message's, as `dispatch` would write them for the id and
the table, but those of the id packed twice; and any other table leaves the base apps
the same. The packer is injective only for the comparison with `dispatch`. -/
theorem push_loses_content {c : Codec A M B} (hpack : ∀ id, Function.Injective (c.pack id))
    (room : AreaRoom A) (apps : ℕ → State A B) {seat : ℕ} {player : PlayerInfo A} (hseat : seat ≠ 0)
    (hplayer : room.playerList[seat - 1]? = some player) {fd : ℕ}
    (hfd : (apps player.baseApp).socketOf player.account = some fd) (protoName : String)
    (msg : Table A M) :
    ∃ apps', (room.sendClient seat protoName msg).bind (deliver c apps) = some apps' ∧
      (apps' player.baseApp).written = (apps player.baseApp).written ++
        [(fd, c.pack (c.nameToId protoName) (.number (c.nameToId protoName)))] ∧
      (apps' player.baseApp).written ≠ (apps player.baseApp).written ++
        [(fd, c.pack (c.nameToId protoName) (.table msg))] ∧
      ∀ msg', (room.sendClient seat protoName msg').bind (deliver c apps) = some apps' := by
  have hsend : ∀ msg : Table A M, (room.sendClient seat protoName msg).bind (deliver c apps) =
      some (Function.update apps player.baseApp ((apps player.baseApp).write fd
        (c.pack (c.nameToId protoName) (.number (c.nameToId protoName))))) := by
    intro msg
    rw [AreaRoom.sendClient, if_neg hseat, hplayer]
    simp only [Option.map_some, Option.bind_some, deliver, step, written_sendtoClient hfd]
  refine ⟨_, hsend msg, by simp [State.write], fun h => ?_, hsend⟩
  have hbytes : c.pack (c.nameToId protoName) (.number (c.nameToId protoName)) =
      c.pack (c.nameToId protoName) (.table msg) := by
    simpa [State.write] using h
  -- the packer tells a number from a table
  exact absurd (hpack _ hbytes) (by simp)

/-- A base app on which account `7` has logged in. -/
def loggedInApp : State ℕ (ℕ × Value ℕ Unit) :=
  (Machine.run (step (plainCodec ℕ Unit)) State.init oneLogin).getD State.init

/-- A push to this account is not written as it should be. -/
theorem push_loses_content_loggedInApp :
    ∃ apps', (AreaRoom.sendClient ⟨1, [⟨0, 7⟩]⟩ 1 "game.begin" (.msg ())).bind
        (deliver (plainCodec ℕ Unit) fun _ => loggedInApp) = some apps' ∧
      (apps' 0).written ≠ loggedInApp.written ++ [(3, (10, .table (.msg ())))] := by
  have hseat : (1 : ℕ) ≠ 0 := by decide
  have hfd : loggedInApp.socketOf 7 = some 3 := rfl
  obtain ⟨apps', h, -, hne, -⟩ := push_loses_content (c := plainCodec ℕ Unit)
    (fun _ _ _ h => congrArg Prod.snd h) ⟨1, [⟨0, 7⟩]⟩ (fun _ => loggedInApp) hseat rfl hfd
    "game.begin" (.msg ())
  exact ⟨apps', h, hne⟩

/-- Two different tables pushed to this account are written as the same bytes. -/
theorem push_same_bytes :
    ((loggedInApp.sendtoClient (plainCodec ℕ Unit) (some 7) "game.begin" (.msg ())).written =
        (loggedInApp.sendtoClient (plainCodec ℕ Unit) (some 7) "game.begin" .empty).written) ∧
      (loggedInApp.sendtoClient (plainCodec ℕ Unit) (some 7) "game.begin" .empty).written =
        loggedInApp.written ++ [(3, (10, .number 10))] :=
  ⟨rfl, rfl⟩

end SlgServer.App
