import MagnusPS5.Graphics.StreamBufferRun
import MagnusPS5.Kernel.SemaphoreRun
import MagnusPS5.Kernel.EventFlagRun
import MagnusPS5.Kernel.SyncOnAddressRun
import MagnusPS5.Graphics.CommandSchedulerRun
import MagnusPS5.Shader.ConstantPropagationSpec
import MagnusPS5.Shader.InvocationMasks
import MagnusPS5.Shader.LoweredReadsSpec
import MagnusPS5.Shader.RuntimeEvaluation
import MagnusPS5.Kernel.RwlockRun
import MagnusPS5.Kernel.DescriptorNumbers
import MagnusPS5.Kernel.CondRun
import MagnusPS5.Graphics.GuestGpuRun
import MagnusPS5.Graphics.Pm4FramingRun
import MagnusPS5.Graphics.TileLayoutSpec
import MagnusPS5.Graphics.BufferOwnership
import MagnusPS5.Graphics.RangeSetSpec
import MagnusPS5.Kernel.BackingTransferSpec
import MagnusPS5.Kernel.BackingUnmap
import MagnusPS5.Kernel.DirectMemoryQuery
import MagnusPS5.Kernel.GuestFreeRange
import MagnusPS5.Ampr.CommandBufferRun
import MagnusPS5.Ampr.FileIdsRun
import MagnusPS5.Agc.PacketRun
import MagnusPS5.Kernel.EventQueueRun
import MagnusPS5.Shader.DominatorsRun
import MagnusPS5.Graphics.TextureCacheBalance
import MagnusPS5.Shader.IndirectImagesRun
import MagnusPS5.Loader.ShaNiRounds
import MagnusPS5.Loader.ShaNiOperandsSpec
import MagnusPS5.Kernel.PthreadKeysRun
import MagnusPS5.Kernel.PthreadOnce
import MagnusPS5.Loader.EhFrame
import MagnusPS5.Shader.IntegerLoweringSpec
import MagnusPS5.Kernel.MountPoints
import MagnusPS5.Rtc.Ticks
import MagnusPS5.Agc.CommandSpace
import MagnusPS5.Graphics.ConstantEngine
import MagnusPS5.Common.LruCache
