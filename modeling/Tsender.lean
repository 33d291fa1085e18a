import Tsender.Lib.Transition
import Tsender.Queue.AudioDelivery
import Tsender.Queue.Clearing
import Tsender.Queue.SeekEpochs
import Tsender.Queue.TornEpochs
import Tsender.Sender.Bitstream
import Tsender.Channel.AudioSeek
import Tsender.Channel.AudioSender
import Tsender.Channel.Completion
import Tsender.Channel.FormatContext
import Tsender.Channel.Pacing
import Tsender.Channel.Pause
import Tsender.Channel.Playback
import Tsender.Channel.PutLoop
import Tsender.Channel.References
import Tsender.Channel.Resources
import Tsender.Channel.ReverseRun
import Tsender.Channel.SeekFlush
import Tsender.Channel.SeekHandoff
import Tsender.Channel.SeekReverse
import Tsender.Channel.SeekSkip
import Tsender.Channel.SeekTarget
import Tsender.Channel.TimeScale
import Tsender.Channel.Wire
import Tsender.Lib.PathWalk
import Tsender.Lib.ShellWords
import Tsender.Json.Reader
import Tsender.Json.RoundTrip
import Tsender.Json.Settling
import Tsender.Lib.Fallible
import Tsender.Lib.Delivery
import Tsender.Comm.Survival
import Tsender.Comm.Agreement
import Tsender.Comm.Echo
import Tsender.Comm.FrameLookup
import Tsender.Comm.SeekArithmetic
import Tsender.Comm.PlayTree
import Tsender.Comm.Player
import Tsender.Comm.Reply
import Tsender.Comm.Circulation
import Tsender.Comm.Startup
import Tsender.Comm.Screening
import Tsender.Comm.TableBound
import Tsender.Comm.Rates
import Tsender.Lifecycle.Shutdown
import Tsender.Lifecycle.Teardown
import Tsender.Lifecycle.ChannelTable
import Tsender.Lifecycle.Threads
import Tsender.Misc.ListRefinement
import Tsender.Thumbnail.Base64
