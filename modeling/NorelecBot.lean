import NorelecBot.Lib.Cursor
import NorelecBot.Lib.Daily
import NorelecBot.Lib.OrderedMap
import NorelecBot.Lib.Slots
import NorelecBot.EmojiBooks
import NorelecBot.ChildrenStay
import NorelecBot.OnePlace
import NorelecBot.Forgotten
import NorelecBot.HoldPaid
import NorelecBot.WayHome
import NorelecBot.AllOrNothing
import NorelecBot.Refusals
import NorelecBot.Linking
import NorelecBot.Irc.OneLine
import NorelecBot.Irc.Tenure
import NorelecBot.Irc.InOrder
import NorelecBot.FirstDay
import NorelecBot.Isolation
import NorelecBot.Recognised
import NorelecBot.Blocked
import NorelecBot.EmojiPieces
import NorelecBot.Eggs
import NorelecBot.StartOver
import NorelecBot.Ranking
import NorelecBot.SortedOnce
import NorelecBot.Credits
import NorelecBot.Invites
import NorelecBot.Wear
import NorelecBot.Holes
import NorelecBot.Homeward
import NorelecBot.Named
import NorelecBot.OnFile
import NorelecBot.Replayed
import NorelecBot.Rest
import NorelecBot.Pages
import NorelecBot.Roads
import NorelecBot.SelfRides
import NorelecBot.Voyages
import NorelecBot.Verbs
import NorelecBot.Watch.Groups
import NorelecBot.Watch.Forgetting
import NorelecBot.Watch.HandOvers
import NorelecBot.Watch.Lately
import NorelecBot.Watch.EitherSide
import NorelecBot.Watch.Evidence
import NorelecBot.Irc.Split
import NorelecBot.Irc.Stream
import NorelecBot.Irc.Bridge
import NorelecBot.Price
import NorelecBot.PalleFits
import NorelecBot.Mentions
import NorelecBot.Configured
import NorelecBot.Polling
import NorelecBot.Elsewhere
import NorelecBot.Keeper
import NorelecBot.Pulse
import NorelecBot.Authority
