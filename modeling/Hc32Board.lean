import Hc32Board.CodeLib.Run
import Hc32Board.CodeLib.Bytes
import Hc32Board.CodeLib.Decimal
import Hc32Board.CodeLib.Scanf
import Hc32Board.CodeLib.ScanText
import Hc32Board.CodeLib.Ring
import Hc32Board.CodeLib.Store
import Hc32Board.CodeLib.NorFlash
import Hc32Board.RtThread.Errno
import Hc32Board.OnChipFlash.Efm
import Hc32Board.OnChipFlash.Write
import Hc32Board.OnChipFlash.Erase
import Hc32Board.FlashParam.FlashDb
import Hc32Board.FlashParam.Item
import Hc32Board.FlashParam.Manager
import Hc32Board.FlashParam.Table
import Hc32Board.FlashParam.PowerCycle
import Hc32Board.FlashParam.Consistent
import Hc32Board.FlashParam.Defaults
import Hc32Board.FlashParam.FirstBoot
import Hc32Board.FlashParam.ResetAll
import Hc32Board.FlashParam.AppTable
import Hc32Board.FlashParam.TypedStore
import Hc32Board.FlashParam.Lifecycle
import Hc32Board.FlashParam.ItemRegions
import Hc32Board.FlashParam.Regions
import Hc32Board.AtClient.Line
import Hc32Board.AtClient.Response
import Hc32Board.AtClient.Parse
import Hc32Board.AtClient.Exec
import Hc32Board.AtSocket.Packets
import Hc32Board.AiWb2.Socket
import Hc32Board.AiWb2.Slots
import Hc32Board.AiWb2.ConId
import Hc32Board.AiWb2.EarlyData
import Hc32Board.AiWb2.Receive
import Hc32Board.AiWb2.Decode
import Hc32Board.AiWb2.SendMachine
import Hc32Board.AiWb2.SendFlow
import Hc32Board.AiWb2.SendConfirm
import Hc32Board.AiWb2.SendWait
import Hc32Board.AiWb2.Fragments
import Hc32Board.AiWb2.Netdev
import Hc32Board.AiWb2.Link
import Hc32Board.AiWb2.Address
import Hc32Board.AiWb2.Resolve
import Hc32Board.AiWb2.Fields
import Hc32Board.AiWb2.Netstat
import Hc32Board.AiWb2.StaInfo
import Hc32Board.AiWb2.ModuleText
import Hc32Board.AiWb2.StaTail
import Hc32Board.Rs485.Lwrb
import Hc32Board.Rs485.Driver
import Hc32Board.Rs485.Fifo
import Hc32Board.Rs485.RxSem
import Hc32Board.Rs485.Init
import Hc32Board.Rs485.Transmit
import Hc32Board.Rs485.HexCommand
import Hc32Board.CodeLib.Crc
import Hc32Board.FlashDb.Alloc
import Hc32Board.FlashDb.Boot
import Hc32Board.FlashDb.Manager
import Hc32Board.FlashDb.ManagerRuns
