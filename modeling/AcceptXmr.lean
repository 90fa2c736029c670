import AcceptXmr.Library.Resumption
import AcceptXmr.Library.AssocMap
import AcceptXmr.Library.Transactions
import AcceptXmr.Library.IndexMap
import AcceptXmr.Library.KeyedTable
import AcceptXmr.Library.Replay
import AcceptXmr.Library.Codec
import AcceptXmr.Library.ParIter
import AcceptXmr.Library.InStep
import AcceptXmr.Library.Reordered
import AcceptXmr.Library.Collect
import AcceptXmr.Library.Counting
import AcceptXmr.Library.Sorting
import AcceptXmr.Library.Text
import AcceptXmr.Library.Base64
import AcceptXmr.Library.BigEndian
import AcceptXmr.Library.Linearization
import AcceptXmr.Library.Mailbox
import AcceptXmr.Library.Binary64
import AcceptXmr.Library.Decimal
import AcceptXmr.Invoice
import AcceptXmr.Invoice.Equality
import AcceptXmr.Invoice.Integer
import AcceptXmr.Invoice.Uri
import AcceptXmr.MonerodClient
import AcceptXmr.MonerodClient.Authentication
import AcceptXmr.MonerodClient.Challenge
import AcceptXmr.MonerodClient.ParseHeader
import AcceptXmr.Caching.BlockCache
import AcceptXmr.Caching.Reorg
import AcceptXmr.Caching.TxpoolCache
import AcceptXmr.Caching.TxpoolRuns
import AcceptXmr.Caching.SubaddressCache
import AcceptXmr.Caching.Allocation
import AcceptXmr.Caching.GenerateRange
import AcceptXmr.MonerodClient.Rpc
import AcceptXmr.MonerodClient.Request
import AcceptXmr.Storage.Store
import AcceptXmr.Storage.Manager
import AcceptXmr.Storage.Channel
import AcceptXmr.Storage.Sqlite
import AcceptXmr.Storage.StoredInvoiceId
import AcceptXmr.Storage.SqliteTables
import AcceptXmr.Storage.SqliteRefinement
import AcceptXmr.Storage.Sled
import AcceptXmr.Storage.InMemory
import AcceptXmr.Storage.TableName
import AcceptXmr.Scanner.ScanTransactions
import AcceptXmr.Scanner.ParallelScan
import AcceptXmr.Scanner.OutputKeys
import AcceptXmr.Scanner.UpdateInvoices
import AcceptXmr.Scanner.Scan
import AcceptXmr.Scanner.Sightings
import AcceptXmr.Scanner.Publishing
import AcceptXmr.Gateway
import AcceptXmr.Scanner.Readable
import AcceptXmr.Scanner.Crediting
import AcceptXmr.Scanner.PaymentStatus
import AcceptXmr.Scanner.Restart
import AcceptXmr.Scanner.TxpoolExactness
import AcceptXmr.Scanner.HashOrder
import AcceptXmr.Scanner.Rescan
import AcceptXmr.Scanner.FailedScans
import AcceptXmr.Pubsub.Publisher
import AcceptXmr.Pubsub.Delivery
import AcceptXmr.Pubsub.Removal
import AcceptXmr.Server.Watch
import AcceptXmr.Server.Expiry
import AcceptXmr.Server.InvoiceId
import AcceptXmr.Server.Api
import AcceptXmr.Server.Exchanges
import AcceptXmr.Server.ExchangeRuns
import AcceptXmr.Server.Callbacks
import AcceptXmr.Server.PostedCallbacks
import AcceptXmr.Server.Websocket
import AcceptXmr.Gateway.Calls
import AcceptXmr.Gateway.Subaddresses
import AcceptXmr.Gateway.Conservation
import AcceptXmr.Gateway.Terms
import AcceptXmr.Gateway.SavedUpdates
import AcceptXmr.Gateway.Registration
import AcceptXmr.Gateway.Subscriptions
import AcceptXmr.Gateway.ScannerHandle
import AcceptXmr.Gateway.OneScanner
import AcceptXmr.Gateway.Downtime
import AcceptXmr.Gateway.Reuse
import AcceptXmr.Gateway.ScanLoop
