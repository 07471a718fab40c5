import RsyncRs.Batch
import RsyncRs.Checksum.Padding
import RsyncRs.Checksum.Sliding
import RsyncRs.Daemon.Overread
import RsyncRs.Daemon.Served
import RsyncRs.Daemon.Transfer
import RsyncRs.Delta.BlockRuns
import RsyncRs.Delta.DeflateRoundTrip
import RsyncRs.Delta.Tiling
import RsyncRs.Delta.Unchanged
import RsyncRs.Filter.Resent
import RsyncRs.Filter.RuleLines
import RsyncRs.Flist.Decoding
import RsyncRs.Flist.Extraneous
import RsyncRs.Flist.IdNames
import RsyncRs.Flist.LinkedGroups
import RsyncRs.Flist.Listed
import RsyncRs.Flist.Nested
import RsyncRs.Flist.OldProtocol
import RsyncRs.Flist.Pruning
import RsyncRs.Flist.Resorted
import RsyncRs.Flist.Unread
import RsyncRs.Io.RoundTrip
import RsyncRs.Local.BackedUp
import RsyncRs.Local.Failure
import RsyncRs.Local.Selection
import RsyncRs.Options.Remote
import RsyncRs.Pipeline.Confined
import RsyncRs.Pipeline.Followers
import RsyncRs.Pipeline.IgnoreExisting
import RsyncRs.Pipeline.PullPush
import RsyncRs.Pipeline.QuickCheck
import RsyncRs.Pipeline.SenderFlush
import RsyncRs.Pipeline.SenderSurvives
import RsyncRs.Pipeline.SkippedTransfer
import RsyncRs.Pipeline.SourceFiles
import RsyncRs.Pipeline.TreeDeletion
import RsyncRs.Pipeline.Verified
import RsyncRs.Program.Silent
import RsyncRs.Protocol.Handshake
