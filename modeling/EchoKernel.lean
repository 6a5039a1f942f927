import EchoKernel.NumberText
import EchoKernel.BitmapArea
import EchoKernel.BpfClassicRuns
import EchoKernel.BpfPatch
import EchoKernel.BinderAsync
import EchoKernel.BadblocksClearCorrect
import EchoKernel.NandBbtPacked
import EchoKernel.NandDriver
import EchoKernel.NandIoRuns
import EchoKernel.AudioIpiQueueTurns
import EchoKernel.AudioIpiQueueAcks
import EchoKernel.AdspIpiQueueResults
import EchoKernel.AudioRingbufFaults
import EchoKernel.AudioRegion
import EchoKernel.AudioIpiDma
import EchoKernel.SysenvRuns
import EchoKernel.GptPartBounds
import EchoKernel.SndInterval
import EchoKernel.KstrtoxUser
import EchoKernel.KfifoRecords
import EchoKernel.TimerWheelExpiry
import EchoKernel.NandIoTransfer
import EchoKernel.NandSpiChip
import EchoKernel.PageAllocSound
import EchoKernel.IpFragmentDatagram
import EchoKernel.IpFragmentRejected
import EchoKernel.PrintkLogRuns
import EchoKernel.PosixLocksHistory
import EchoKernel.PosixLocksDeadlock
import EchoKernel.NfiFdm
import EchoKernel.WinMinmax
import EchoKernel.ReciprocalDiv
import EchoKernel.Div64Generic
import EchoKernel.RationalBest
import EchoKernel.VerityFecBlocks
import EchoKernel.StaticPower
import EchoKernel.LoadAvg
