import MyDev.Library.Machine
import MyDev.Library.Fifo
import MyDev.Library.CInt
import MyDev.Library.CString
import MyDev.Library.Linked
import MyDev.Kbuf
import MyDev.KbufHeap
import MyDev.Stat
import MyDev.Device
import MyDev.DeviceStep
import MyDev.DeviceLock
import MyDev.DeviceFifo
import MyDev.DeviceDelivery
import MyDev.DeviceWake
import MyDev.DeviceLimit
import MyDev.DeviceBounds
import MyDev.DeviceReveal
import MyDev.DeviceThreads
import MyDev.ModuleInit
import MyDev.ModuleExit
import MyDev.Library.Channel
import MyDev.Library.Workers
import MyDev.Library.Mutex
import MyDev.Buffer
import MyDev.Fun
import MyDev.Pipeline
import MyDev.BufferHeap
import MyDev.PipelineStep
import MyDev.PipelineJoin
import MyDev.PipelineFlow
import MyDev.PipelineLock
import MyDev.PipelineDrain
import MyDev.PipelineSource
import MyDev.ReaderPipeline
import MyDev.PipelineDeadlock
import MyDev.PipelineClose
import MyDev.PipelineWake
import MyDev.System
import MyDev.WriterPipeline
import MyDev.SystemLink
import MyDev.SystemAppend
import MyDev.SystemWriter
import MyDev.DeviceData
import MyDev.SystemData
import MyDev.EndToEnd
import MyDev.StatAverage
import MyDev.StatRealloc
import MyDev.StatSnapshot
import MyDev.PipelineCounts
import MyDev.DeviceSignal
import MyDev.SystemDone
import MyDev.Library.Potential
import MyDev.PipelineProgress
import MyDev.DeviceProgress
import MyDev.DeviceToll
import MyDev.Library.Keyed
import MyDev.PipelineTermination
import MyDev.PipelineInterrupt
import MyDev.SystemMany
import MyDev.SystemProgress
import MyDev.SystemTermination
import MyDev.PipelineLoss
import MyDev.SystemLoss
import MyDev.SystemOrder
import MyDev.SystemOpen
import MyDev.Library.Linear
import MyDev.DeviceLinear
import MyDev.Library.Owned
import MyDev.DeviceHeap
import MyDev.DeviceMemory
