import Resch.Lib.Runs
import Resch.Spec.ApiRun
import Resch.Proof.Queue
import Resch.Proof.Frame
import Resch.Proof.Fields
import Resch.Proof.Updates
import Resch.Proof.Hooks
import Resch.Proof.CoreRun
import Resch.Proof.DeadlineRun
import Resch.Proof.Exit
import Resch.Proof.PidMap
import Resch.Proof.Reserve
import Resch.Proof.EdfRun
import Resch.Proof.GlobalList
import Resch.Proof.Refused
import Resch.Proof.GpuTime
import Resch.Proof.GpuTable
import Resch.Proof.GpuWake
import Resch.Proof.MigrateRun
import Resch.Proof.GEdf
import Resch.Proof.GFp
import Resch.Proof.FpPm
import Resch.Proof.Component
import Resch.Proof.GpuBand
import Resch.Proof.GpuEntity
import Resch.Proof.Separation
import Resch.Proof.FpPmRun
import Resch.Proof.EdfTest
import Resch.Proof.ServerRun
import Resch.Proof.QueueAccess
import Resch.Proof.WriteRun
import Resch.Proof.AcctCore
import Resch.Proof.AcctRun
import Resch.Proof.GpuFifo
import Resch.Proof.GpuRing
import Resch.Proof.GpuAccess
import Resch.Proof.GpuProc
import Resch.Proof.NvrmFifo
import Resch.Proof.Save
import Resch.Proof.RequestRun
import Resch.Proof.Clock
import Resch.Proof.FpPmJob
import Resch.Proof.EdfWmJob
import Resch.Proof.ActiveWalk
import Resch.Proof.EdfOrder
import Resch.Proof.PreemptTrace
import Resch.Proof.WorstFit
import Resch.Proof.FpPmSplit
import Resch.Proof.DbfLen
import Resch.Proof.Overhead
import Resch.Proof.EdfTestExact
import Resch.Proof.FpPmPlace
import Resch.Proof.FpFf
import Resch.Proof.Affinity
import Resch.Proof.EdfWmShare
import Resch.Proof.EdfWmProvision
import Resch.Proof.BitSearch
import Resch.Proof.WriteTimes
import Resch.Proof.GpuTimeOrder
import Resch.Proof.ComBandwidth
import Resch.Proof.DeadlineWake
import Resch.Proof.GpuLimit
import Resch.Proof.EdfWmMeasure
import Resch.Proof.Alloc
import Resch.Proof.RealTime
import Resch.Proof.ReleaseRun
import Resch.Proof.Admission
import Resch.Proof.BitComplement
import Resch.Proof.Interference
import Resch.Proof.SortRuntime
import Resch.Proof.GdevList
import Resch.Proof.ReuseRun
import Resch.Proof.Roster
import Resch.Proof.FpFfSound
import Resch.Proof.NvrmHandle
import Resch.Proof.NvrmSession
import Resch.Proof.EdfFfSound
import Resch.Lib.Bubble
import Resch.Lib.CText
import Resch.Proof.Taskset
