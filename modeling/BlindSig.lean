import BlindSig.ClockedCircuit
import BlindSig.Mulmod
import BlindSig.MulmodProduct
import BlindSig.MulmodFormal
import BlindSig.Redmod
import BlindSig.RedmodRemainder
import BlindSig.DatapathRange
import BlindSig.Accel
import BlindSig.AccelStep
import BlindSig.AccelControl
import BlindSig.AccelBusy
import BlindSig.AccelTiming
import BlindSig.AccelFlight
import BlindSig.AccelUndisturbed
import BlindSig.AccelPreconditions
import BlindSig.AccelReset
import BlindSig.AccelReadable
import BlindSig.ClockedArmed
import BlindSig.AccelArming
import BlindSig.AccelRefused
import BlindSig.ClockedProgram
import BlindSig.Driver
import BlindSig.AccelService
import BlindSig.DriverCompute
import BlindSig.DriverPolling
import BlindSig.DriverRounds
import BlindSig.DriverReset
import BlindSig.DriverRecovery
import BlindSig.AccelHistory
import BlindSig.DriverSuccess
import BlindSig.BusWrap
import BlindSig.ByteLanes
import BlindSig.SocFabric
import BlindSig.ClockedSchedule
import BlindSig.SocDirect
import BlindSig.SocMaster
import BlindSig.ClockedLeads
import BlindSig.Rv32i
import BlindSig.Hart
import BlindSig.Picorv32Memory
import BlindSig.Picorv32Bus
import BlindSig.Picorv32Bytes
import BlindSig.Picorv32Core
import BlindSig.Picorv32Decode
import BlindSig.Picorv32Soc
import BlindSig.Picorv32Fetch
import BlindSig.Picorv32Launch
import BlindSig.Picorv32Execute
import BlindSig.Picorv32Access
import BlindSig.Picorv32Refines
import BlindSig.Picorv32Boot
import BlindSig.HexText
import BlindSig.FirmwareImage
import BlindSig.FirmwareTest
import BlindSig.FirmwareStart
import BlindSig.DemoHarness
import BlindSig.DemoInput
import BlindSig.DemoPanel
import BlindSig.DemoSession
import BlindSig.DemoFrames
import BlindSig.DemoLock
import BlindSig.Picorv32Trap
