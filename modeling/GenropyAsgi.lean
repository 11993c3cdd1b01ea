import GenropyAsgi.Library.Run
import GenropyAsgi.Library.Merge
import GenropyAsgi.Library.Ledger
import GenropyAsgi.Library.Feed
import GenropyAsgi.Library.Account
import GenropyAsgi.TableEvents
import GenropyAsgi.IndexCalls
import GenropyAsgi.RequestSlot
import GenropyAsgi.Delivery.Conservation
import GenropyAsgi.Delivery.Retirement
import GenropyAsgi.Delivery.ArrivalOrder
import GenropyAsgi.Delivery.OneList
import GenropyAsgi.Delivery.StoreOrder
import GenropyAsgi.Delivery.OneClock
import GenropyAsgi.Delivery.Replay
import GenropyAsgi.Delivery.Refusals
import GenropyAsgi.Views.OneBag
import GenropyAsgi.Views.PendingList
import GenropyAsgi.PrefixTests
import GenropyAsgi.Subscriptions.Filter
import GenropyAsgi.Subscriptions.Commit
import GenropyAsgi.Subscriptions.Projection
import GenropyAsgi.Subscriptions.Departure
import GenropyAsgi.GlobalStore.Turns
import GenropyAsgi.Site.PageFilter
import GenropyAsgi.Site.LockExclusion
import GenropyAsgi.Site.ClockSoundness
import GenropyAsgi.Site.RunningBatch
import GenropyAsgi.Benchmarks.FirstDifference
import GenropyAsgi.Benchmarks.Judgement
import GenropyAsgi.Benchmarks.Pace
import GenropyAsgi.Site.StoreIsolation
import GenropyAsgi.Site.Folders
import GenropyAsgi.Site.Envelope
import GenropyAsgi.Delivery.Coalescing
import GenropyAsgi.Delivery.Watching
import GenropyAsgi.Benchmarks.LoadWindows
import GenropyAsgi.Benchmarks.ReplayBooks
