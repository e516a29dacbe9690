import Lurker.Lib.OrderedMap
import Lurker.Lib.Run
import Lurker.Lib.Channel
import Lurker.Engine.Dial
import Lurker.Engine.LineBuffer
import Lurker.Engine.Upstream
import Lurker.Engine.Server
import Lurker.Engine.Isolation
import Lurker.Engine.Announce
import Lurker.Engine.Holes
import Lurker.Outbound.Queue
import Lurker.Outbound.Budget
import Lurker.Outbound.Wire
import Lurker.E2e.Chunk
import Lurker.Lib.XChaCha20Poly1305
import Lurker.E2e.Render
import Lurker.E2e.Pin
import Lurker.Db.Absorb
import Lurker.Db.NoiseClock
import Lurker.Db.Refold
import Lurker.Dcc.Address
import Lurker.E2e.RawGuard
import Lurker.Irc.MonitorList
import Lurker.Irc.MonitorNetwork
import Lurker.Irc.MonitorSettles
import Lurker.Db.BandWalk
import Lurker.Db.RetentionKeeps
import Lurker.Dcc.Judged
import Lurker.Outbound.MessageSplit
import Lurker.Outbound.Multiline
import Lurker.Bouncer.History
import Lurker.Bouncer.Paging
import Lurker.Db.EngineMarks
import Lurker.Db.HandOver
import Lurker.Engine.Backlog
import Lurker.Engine.FrameFits
import Lurker.Engine.FrameReader
import Lurker.Irc.Membership
import Lurker.Irc.MembershipKnown
import Lurker.Timeline.Cast
import Lurker.Timeline.Files
import Lurker.Timeline.NetEffect
import Lurker.Chat.Relay
import Lurker.E2e.HandshakeCodec
import Lurker.E2e.Signed
import Lurker.Irc.ChannelModes
import Lurker.Irc.LineFormat
import Lurker.Chat.Ignore
import Lurker.Connect.ConnectScheduler
import Lurker.Connect.RestoreGate
import Lurker.E2e.Portable
import Lurker.E2e.PortableImport
import Lurker.Outbound.Keyed
import Lurker.Timeline.Rows
import Lurker.Bouncer.Slice
import Lurker.Db.CountedPaging
import Lurker.Db.ReadMarker
import Lurker.Db.RenameBuffer
import Lurker.Db.Reactions
import Lurker.Db.ClosedBufferGc
import Lurker.Dcc.Wire
import Lurker.Dcc.Sender
import Lurker.Upload.MetadataScrub
import Lurker.Chat.Formatting
import Lurker.Timeline.MessageOrder
import Lurker.Db.SecretCrypto
import Lurker.Bouncer.ClientLine
import Lurker.Bouncer.WireText
import Lurker.Client.BufferStore
import Lurker.Chat.QuoteBlocks
import Lurker.Chat.SpoilerMarkup
import Lurker.Bouncer.Targets
import Lurker.Db.Search
import Lurker.Irc.BackfillEnds
import Lurker.Replies.Drains
import Lurker.Replies.Answers
