import XPlayer.Lib.System
import XPlayer.Lib.Lifecycle
import XPlayer.Lib.SendRecv
import XPlayer.Lib.Custody
import XPlayer.Lib.LockOrder
import XPlayer.Lib.History
import XPlayer.Demux
import XPlayer.XThreadLife
import XPlayer.XThreadPause
import XPlayer.SLAudio
import XPlayer.Decode
import XPlayer.Player
import XPlayer.PlayerStep
import XPlayer.Owner
import XPlayer.Mutexes
import XPlayer.PauseFlags
import XPlayer.PacksMutex
import XPlayer.SeekCall
import XPlayer.CloseClears
import XPlayer.Leak
import XPlayer.Clock
import XPlayer.BackPressure
import XPlayer.Lead
import XPlayer.SeekFlush
import XPlayer.Playback
import XPlayer.Lib.Wrap
import XPlayer.Timestamps
import XPlayer.Lib.Fifo
import XPlayer.Queues
import XPlayer.Resample
import XPlayer.Lib.LockBalance
import XPlayer.LockBalance
import XPlayer.OpenFile
import XPlayer.VideoView
import XPlayer.Contexts
import XPlayer.SLObjects
import XPlayer.SLLife
import XPlayer.XEGL
import XPlayer.EGLLife
import XPlayer.XShader
import XPlayer.ShaderLife
import XPlayer.Lib.Raster
import XPlayer.XTexture
import XPlayer.Uploads
import XPlayer.Textures
import XPlayer.FrameTextures
import XPlayer.Isolation
import XPlayer.SeekWait
import XPlayer.Orderly
import XPlayer.SeekSpace
import XPlayer.SeekLoop
import XPlayer.SeekReturns
import XPlayer.Starvation
import XPlayer.SeekAtomic
import XPlayer.SeekStop
import XPlayer.SeekTarget
import XPlayer.Progress
import XPlayer.Lib.Loop
import XPlayer.LibAV.Mathematics
import XPlayer.LibAV.Decode
import XPlayer.LibAV.DecodeRun
import XPlayer.LibAV.Session
import XPlayer.LibAV.Machine
import XPlayer.DecodedPlayback
import XPlayer.LibAV.Index
import XPlayer.Lib.Runs
import XPlayer.LibAV.Mov
import XPlayer.LibAV.MovIndex
import XPlayer.MovDemux
import XPlayer.LibAV.AVIO
import XPlayer.LibAV.AVIORun
import XPlayer.LibAV.Probe
import XPlayer.LibAV.GetPacket
import XPlayer.LibAV.MovFile
import XPlayer.Lib.Scan
import XPlayer.LibAV.Search
import XPlayer.LibAV.BestStream
