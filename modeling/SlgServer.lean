import SlgServer.Machine
import SlgServer.Melds
import SlgServer.MeldRows
import SlgServer.MeldTiles
import SlgServer.MeldFills
import SlgServer.MeldSums
import SlgServer.Scan
import SlgServer.NestedLoops
import SlgServer.Frames
import SlgServer.BigEndian
import SlgServer.Tiles
import SlgServer.BaseTables
import SlgServer.BaseHulib
import SlgServer.BaseWinning
import SlgServer.BaseCollect
import SlgServer.OlderHulib
import SlgServer.GuiTables
import SlgServer.GuiHulib
import SlgServer.HubeiTables
import SlgServer.HubeiHulib
import SlgServer.OlderWinning
import SlgServer.GuiPairs
import SlgServer.GenGuiTable
import SlgServer.GuiTableKeys
import SlgServer.GenBaseTable
import SlgServer.TidyHands
import SlgServer.BaseTableKeys
import SlgServer.HuGuiLib
import SlgServer.HuGuiChoices
import SlgServer.HuGuiWinning
import SlgServer.Chow
import SlgServer.LuaArray
import SlgServer.IdMgr
import SlgServer.AreaMgr
import SlgServer.RoomMgr
import SlgServer.RoomSteps
import SlgServer.RoomQueue
import SlgServer.RoomIds
import SlgServer.GenIds
import SlgServer.RoomPlayers
import SlgServer.PlayerIndex
import SlgServer.ReadyRooms
import SlgServer.RoomStarts
import SlgServer.BaseApp
import SlgServer.Match
import SlgServer.Shuffle
import SlgServer.MatchPlay
import SlgServer.MatchDeal
import SlgServer.DealCalls
import SlgServer.App
import SlgServer.AppSteps
import SlgServer.AppSessions
import SlgServer.AppClients
import SlgServer.AppPush
import SlgServer.AppLoads
import SlgServer.AccountMgr
import SlgServer.AccountInserts
import SlgServer.Tokens
import SlgServer.RobotNet
import SlgServer.LuaP
import SlgServer.RingBuffer
import SlgServer.Netpack
import SlgServer.Gate
import SlgServer.GateWire
import SlgServer.GateReports
import SlgServer.GateApp
import SlgServer.Pool
import SlgServer.Scheduler
import SlgServer.SchedulerInv
import SlgServer.SchedulerSteps
import SlgServer.SchedulerRuns
import SlgServer.SchedulerRest
import SlgServer.Readers
import SlgServer.LuaSeri
import SlgServer.LuaSeriNeeds
import SlgServer.LuaSeriPack
import SlgServer.LuaSeriTrip
import SlgServer.LuaSeriRead
import SlgServer.Buckets
import SlgServer.Timer
import SlgServer.TimerSlots
import SlgServer.TimerRuns
import SlgServer.SocketServer
import SlgServer.SocketWrites
import SlgServer.SocketClose
import SlgServer.SocketPoll
