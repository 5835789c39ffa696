import UbusVip.Guarantees.AddressMap
import UbusVip.Guarantees.BusOwnership
import UbusVip.Guarantees.ByteMemory
import UbusVip.Guarantees.Capture
import UbusVip.Guarantees.ClosureEnds
import UbusVip.Guarantees.ClosureExit
import UbusVip.Guarantees.Completion
import UbusVip.Guarantees.CoverageAgreement
import UbusVip.Guarantees.Decoding
import UbusVip.Guarantees.Delivery
import UbusVip.Guarantees.EndOfTest
import UbusVip.Guarantees.Exactness
import UbusVip.Guarantees.FinalReport
import UbusVip.Guarantees.Handshake
import UbusVip.Guarantees.Lockstep
import UbusVip.Guarantees.Observers
import UbusVip.Guarantees.PinTraces
import UbusVip.Guarantees.Progress
import UbusVip.Guarantees.ReadBack
import UbusVip.Guarantees.Rearrangement
import UbusVip.Guarantees.RegionCounts
import UbusVip.Guarantees.Repetition
import UbusVip.Guarantees.ResponseOrder
import UbusVip.Guarantees.ResponseQueue
import UbusVip.Guarantees.Storage
import UbusVip.Guarantees.Targeting
import UbusVip.Guarantees.Timing
import UbusVip.Guarantees.Verdict
import UbusVip.Guarantees.WaitState
import UbusVip.Guarantees.WordCheck
