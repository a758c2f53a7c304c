import XogMobile.Qemu.CallbackExact
import XogMobile.Qemu.Lru
import XogMobile.Android.AudioLifecycle
import XogMobile.Android.CoreThread
import XogMobile.Android.Import
import XogMobile.Android.PauseResume
import XogMobile.Android.Touch
import XogMobile.Android.Utf8
import XogMobile.Nv2a.InlineBuffer
import XogMobile.Nv2a.PushBounds
import XogMobile.Nv2a.ResetHistory
import XogMobile.Nv2a.Snapshot
import XogMobile.Nv2a.ContextSwitch
import XogMobile.Nv2a.Squash
import XogMobile.Nv2a.Halt
import XogMobile.Nv2a.Swizzle
import XogMobile.Nv2a.S3tc
import XogMobile.Nv2a.Vk.SurfaceAsserts
import XogMobile.Nv2a.Vk.BlitWrites
import XogMobile.Nv2a.Vk.Coherence
import XogMobile.Nv2a.Vk.DownloadsProgress
import XogMobile.Nv2a.Vk.Reports
import XogMobile.Nv2a.Vk.PipelineChecks
import XogMobile.Apu.VoiceProgress
import XogMobile.Apu.PauseProgress
import XogMobile.Nvnet.IrqLine
import XogMobile.Nvnet.Transmit
import XogMobile.Nvnet.Snapshot
import XogMobile.Xid.Gamepad
import XogMobile.Apu.Dsp.Loops
import XogMobile.Apu.Dsp.Division
import XogMobile.Apu.Dsp.Address
import XogMobile.Apu.Irq
import XogMobile.Apu.MixBins
import XogMobile.Apu.VoiceRace
import XogMobile.Nv2a.Ramht
import XogMobile.Nv2a.Extents
import XogMobile.Nv2a.Vk.SyncRanges
import XogMobile.Nv2a.Divisors
import XogMobile.Nv2a.Vk.Staging
import XogMobile.Nv2a.Vk.Compute
import XogMobile.Xbox.Eeprom
import XogMobile.Xbox.SuperIo
import XogMobile.Apu.VoiceExit
import XogMobile.Nvnet.Aborts
