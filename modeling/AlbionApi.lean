import AlbionApi.Auth.Credentials
import AlbionApi.Auth.Isolation
import AlbionApi.Auth.Limits
import AlbionApi.Auth.Responses
import AlbionApi.Cache.Interleaved
import AlbionApi.Cache.Requests
import AlbionApi.DirectTrades.Agreement
import AlbionApi.DirectTrades.Clears
import AlbionApi.DirectTrades.Entries
import AlbionApi.DirectTrades.Paths
import AlbionApi.Keys.Usage
import AlbionApi.Limiter.KeyedWindows
import AlbionApi.Limiter.Refinement
import AlbionApi.Limiter.Reset
import AlbionApi.Orders.Cancel
import AlbionApi.Orders.Pages
import AlbionApi.Orders.Rainlang
import AlbionApi.Orders.Ratios
import AlbionApi.Raindex.MetaboardSections
import AlbionApi.Server.Direct
import AlbionApi.Server.Progress
import AlbionApi.Server.Staleness
import AlbionApi.Server.Startup
import AlbionApi.Server.Termination
import AlbionApi.Trades.Ledger
import AlbionApi.Trades.OrderScan
import AlbionApi.Trades.Pages
import AlbionApi.Trades.TakerWindow
import AlbionApi.Trades.Totals
import AlbionApi.Trades.TxIndex
