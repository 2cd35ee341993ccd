import Synesthesia.Avalon.LbCdcTransport
import Synesthesia.AudioCortex.SramBackpressure
import Synesthesia.AudioCortex.WavEnd
import Synesthesia.AudioCortex.WavIsolation
import Synesthesia.AudioCortex.Playlist
import Synesthesia.AudioCortex.AudioPath
import Synesthesia.FusiformGyrus.FgyrusTop
import Synesthesia.Rtl.PairUpdate
import Synesthesia.FusiformGyrus.FftReference
import Synesthesia.FusiformGyrus.FftSchedule
import Synesthesia.FusiformGyrus.FftControl
import Synesthesia.FusiformGyrus.FftTrace
import Synesthesia.FusiformGyrus.FftStages
import Synesthesia.FusiformGyrus.FgyrusIrq
import Synesthesia.FusiformGyrus.FftBounds
import Synesthesia.FpgaTop.CortexIrq
import Synesthesia.FpgaTop.FftFeed
import Synesthesia.AudioCortex.BffrReset
import Synesthesia.FusiformGyrus.AbsPass
import Synesthesia.FusiformGyrus.MagnitudePasses
import Synesthesia.AudioCortex.AdcFrame
import Synesthesia.Avalon.FftCacheMmSl
import Synesthesia.VisualCortex.VcortexTop
import Synesthesia.VisualCortex.PwmDuty
import Synesthesia.Ledos.CodecMirror
import Synesthesia.AudioCortex.WavWords
import Synesthesia.Ledos.WavHdr
import Synesthesia.Ledos.WaveParse
import Synesthesia.AudioCortex.AdcCapture
import Synesthesia.Ledos.AdcCap
import Synesthesia.AudioCortex.SramFfFlags
import Synesthesia.AudioCortex.PulseSync
import Synesthesia.Prog.Requests
import Synesthesia.Ledos.ShellLine
import Synesthesia.Ledos.Bash
import Synesthesia.Ledos.AcidHandshake
import Synesthesia.Ledos.DacDrvr
import Synesthesia.Ledos.PrepCortex
import Synesthesia.AudioCortex.SramLb
import Synesthesia.AudioCortex.SramPort
import Synesthesia.Prog.BusHost
import Synesthesia.AudioCortex.SramHost
import Synesthesia.AudioCortex.SramRoundTrip
import Synesthesia.AudioCortex.SramCalls
import Synesthesia.AudioCortex.I2cMaster
import Synesthesia.AudioCortex.AcortexBlocks
import Synesthesia.FpgaTop.CortexTree
import Synesthesia.Prog.BusMaster
import Synesthesia.FpgaTop.LbRoute
import Synesthesia.FpgaTop.ConfigRegs
import Synesthesia.FpgaTop.LbData
import Synesthesia.FpgaTop.LbLegs
import Synesthesia.FpgaTop.LbAnswers
import Synesthesia.FpgaTop.LbTransactions
import Synesthesia.FpgaTop.RegisterFile
import Synesthesia.Rtl.TwoWire
import Synesthesia.AudioCortex.I2cWaveform
import Synesthesia.AudioCortex.I2cWrites
import Synesthesia.FusiformGyrus.MagnitudeAccuracy
import Synesthesia.Numeric.Radix2
import Synesthesia.Numeric.Gaussian
import Synesthesia.FusiformGyrus.TwiddleRoots
import Synesthesia.FusiformGyrus.FftAccuracy
import Synesthesia.FusiformGyrus.FrameSchedule
import Synesthesia.FusiformGyrus.FrameResults
import Synesthesia.FusiformGyrus.HostReads
import Synesthesia.FusiformGyrus.FrameAccuracy
import Synesthesia.FusiformGyrus.LookingHost
import Synesthesia.Ledos.Sunshine
import Synesthesia.FpgaTop.PwmDisplay
import Synesthesia.Prog.Served
import Synesthesia.Avalon.FftCacheReads
import Synesthesia.FpgaTop.SpectrumReads
import Synesthesia.FpgaTop.SpectrumPath
import Synesthesia.Fatfs.Volume
import Synesthesia.Fatfs.Fat
import Synesthesia.Fatfs.ReadFile
import Synesthesia.Fatfs.Mount
import Synesthesia.Fatfs.Directory
import Synesthesia.Fatfs.ShortName
import Synesthesia.Fatfs.Path
import Synesthesia.Ledos.Cat
import Synesthesia.AudioCortex.ClkMux
