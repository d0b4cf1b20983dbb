import Emucap.Adapters.FrontAuthAgreement
import Emucap.Adapters.InputMovieAgreement
import Emucap.Adapters.OwnershipAgreement
import Emucap.Analysis.Bisect
import Emucap.Analysis.ReplayTiming
import Emucap.Bundle.FrameOrder
import Emucap.Bundle.PayloadContracts
import Emucap.Bundle.PublishOutcome
import Emucap.Bundle.TerminalState
import Emucap.CanonicalMovie
import Emucap.Debug.StateGroups
import Emucap.GdbRsp.PollAgreement
import Emucap.Live.AcceptedTerminals
import Emucap.Live.GenerationCaptures
import Emucap.Live.LinkRecordBounds
import Emucap.Live.MemoryBatch
import Emucap.Live.ProgressRuns
import Emucap.Live.Reconnect.Agreement
import Emucap.Live.Reconnect.SessionAnswers
import Emucap.Live.SinkLines
import Emucap.Live.Tcp.Attribution
import Emucap.Live.Tcp.PortSelection
import Emucap.Live.TemporalQuarantine
import Emucap.Live.Tools.CleanupVerified
import Emucap.Mame.FrameConduct
import Emucap.McpStdio.Admission
import Emucap.Media.DescriptorGrammar
import Emucap.Media.Gdi
import Emucap.Media.Playlist
import Emucap.Mednafen.SnapshotRoundTrip
import Emucap.N64Adapter.SlotRuns
import Emucap.Np2kaiAdapter.HitRuns
import Emucap.OpenmsxBridge.HitDelivery
import Emucap.Pc98Bridge.SaveItemsLimits
import Emucap.Pc98Bridge.StateDirectory
import Emucap.Pc98Bridge.StopRuns
import Emucap.Pcsx2Bridge.OwnedRuns
import Emucap.Qmp.Runs
import Emucap.Track.Findings
import Emucap.Track.Query
import Emucap.Track.Reproduction
import Emucap.Analysis.HexReplies
import Emucap.OpenmsxBridge.XmlText
import Emucap.Pcsx2Bridge.PatternMatches
