import EpollChat.Library.AssocMap
import EpollChat.Library.Runs
import EpollChat.Library.Framing
import EpollChat.Library.Outcome
import EpollChat.Library.Handles
import EpollChat.Library.DescriptorTable
import EpollChat.Library.Assignments
import EpollChat.Library.Separators
import EpollChat.Library.Machines
import EpollChat.Utils.Helper
import EpollChat.Client.Client
import EpollChat.Network.SocketUtils
import EpollChat.Command.CommandParser
import EpollChat.Command.Grammar
import EpollChat.Config.Config
import EpollChat.Server.Rooms
import EpollChat.Command.CommandHandler
import EpollChat.Server.EventLoop
import EpollChat.Server.Hall
import EpollChat.Server.System
import EpollChat.Server.Lifetime
import EpollChat.Server.Reading
import EpollChat.Server.Loop
import EpollChat.Server.Rounds
import EpollChat.Server.Profile
import EpollChat.Server.Service
import EpollChat.Main
import EpollChat.Core.Logger
import EpollChat.Core.Daemon
import EpollChat.Server.Entries
import EpollChat.Startup
import EpollChat.Properties.Accounting
import EpollChat.Properties.Census
import EpollChat.Properties.Frame
import EpollChat.Properties.Refinement
import EpollChat.Properties.Orders
import EpollChat.Properties.Passwords
import EpollChat.Properties.Ownership
import EpollChat.Properties.Stream
import EpollChat.Properties.Lines
import EpollChat.Properties.Confidentiality
import EpollChat.Properties.Output
import EpollChat.Properties.Prompts
import EpollChat.Properties.Conversation
import EpollChat.Properties.Noninterference
import EpollChat.Properties.Secrets
import EpollChat.Properties.Wire
import EpollChat.Properties.Wakeups
import EpollChat.Properties.History
import EpollChat.Properties.Recipients
import EpollChat.Properties.Naming
import EpollChat.Properties.Nicknames
import EpollChat.Properties.Presence
import EpollChat.Properties.Replies
import EpollChat.Properties.Descriptors
import EpollChat.Properties.LogFile
import EpollChat.Properties.LogLines
import EpollChat.Properties.LogSecrets
import EpollChat.Properties.SystemCalls
import EpollChat.Properties.FailedJoin
import EpollChat.Properties.RoomNames
import EpollChat.Properties.Provenance
import EpollChat.Properties.CommandWords
import EpollChat.Properties.Settings
import EpollChat.Properties.Authors
import EpollChat.Properties.WriteInterest
import EpollChat.Properties.Normaliser
import EpollChat.Properties.Port
