import TickerWatch.Foundations.System
import TickerWatch.Foundations.Dict
import TickerWatch.Foundations.Register
import TickerWatch.Foundations.FixedWidth
import TickerWatch.Foundations.Calendar
import TickerWatch.Shared.Timeutil
import TickerWatch.Securities.Controller
import TickerWatch.Shared.Cache
import TickerWatch.Prices.Controller
import TickerWatch.Prices.Convergence
import TickerWatch.Prices.Handler
import TickerWatch.PriceService.Service
import TickerWatch.PriceService.Ticker
import TickerWatch.PriceService.Startup
import TickerWatch.Client.AppliedState
import TickerWatch.PriceService.Lifetime
import TickerWatch.PriceService.Durable
import TickerWatch.PriceService.ChangeStream
import TickerWatch.PriceService.World
import TickerWatch.PriceService.CacheCoherence
import TickerWatch.Foundations.Table
import TickerWatch.Auth.Controller
import TickerWatch.Shared.Security
import TickerWatch.Auth.Handler
import TickerWatch.Auth.History
import TickerWatch.Auth.Concurrency
import TickerWatch.Auth.Effect
import TickerWatch.Auth.Exchange
import TickerWatch.Auth.ReuseDetection
import TickerWatch.Client.UsePushPrices
import TickerWatch.Client.PushWorld
import TickerWatch.Client.Freshness
import TickerWatch.Client.ConnectGap
import TickerWatch.Auth.Alone
import TickerWatch.Client.Feed
import TickerWatch.Client.SplitWorld
import TickerWatch.Client.ResyncLoss
import TickerWatch.PriceService.Escapes
import TickerWatch.PriceService.FastPath
import TickerWatch.PriceService.Versions
import TickerWatch.PriceService.Listings
import TickerWatch.Prices.Reconciliation
import TickerWatch.PriceService.Provenance
import TickerWatch.PriceService.VendorSwitch
import TickerWatch.Foundations.SequentialObject
import TickerWatch.Watchlist.Controller
import TickerWatch.Watchlist.Concurrency
import TickerWatch.Watchlist.Refinement
import TickerWatch.Watchlist.Isolation
import TickerWatch.Watchlist.Linearization
import TickerWatch.Client.Browser
import TickerWatch.Client.RefreshReuse
import TickerWatch.Client.Logout
import TickerWatch.PriceService.CallBudget
import TickerWatch.Watchlist.Snapshot
import TickerWatch.Client.Drain
import TickerWatch.Shared.Datetime
import TickerWatch.Auth.Password
import TickerWatch.Foundations.Transaction
import TickerWatch.Auth.AllOrNothing
import TickerWatch.PriceService.OwnGuard
import TickerWatch.Client.Subscriptions
import TickerWatch.PriceService.VendorAnswer
import TickerWatch.Client.UsePollPrices
import TickerWatch.Client.LastRequest
import TickerWatch.Foundations.Text
import TickerWatch.Seed.PadCatalog
import TickerWatch.PriceService.VendorMock
import TickerWatch.Client.SearchBar
import TickerWatch.Api.Deps
import TickerWatch.Watchlist.DeclaredErrors
import TickerWatch.Foundations.Like
import TickerWatch.Foundations.Ranking
import TickerWatch.Securities.Search
import TickerWatch.PriceService.Cadence
import TickerWatch.PriceService.Expiry
import TickerWatch.Foundations.Copy
import TickerWatch.PriceService.Accounting
import TickerWatch.Seed.SeedUsers
import TickerWatch.Client.PollTimer
import TickerWatch.Foundations.Csv
import TickerWatch.Seed.CapturePrices
import TickerWatch.LoadGenerator.Comparison
import TickerWatch.LoadGenerator.LikeForLike
import TickerWatch.Foundations.OrderStatistics
import TickerWatch.LoadGenerator.Stats
import TickerWatch.PriceService.Reset
import TickerWatch.PriceService.Sourced
import TickerWatch.PriceService.SimulatedRun
import TickerWatch.PriceService.VendorRun
import TickerWatch.Foundations.Credit
import TickerWatch.Client.RequestTurns
import TickerWatch.PriceService.TwoPaths
