import BonsaiDb.Core.Connection
import BonsaiDb.Core.KeyValue
import BonsaiDb.KeyValue.Tree
import BonsaiDb.KeyValue.Operations
import BonsaiDb.KeyValue.Expiration
import BonsaiDb.KeyValue.System
import BonsaiDb.KeyValue.ExpirationOrder
import BonsaiDb.KeyValue.Loader
import BonsaiDb.KeyValue.Isolation
import BonsaiDb.KeyValue.SetRetry
import BonsaiDb.KeyValue.Numeric
import BonsaiDb.KeyValue.Linearizable
import BonsaiDb.KeyValue.Counter
import BonsaiDb.KeyValue.Restore
import BonsaiDb.Core.Map
import BonsaiDb.Storage.State
import BonsaiDb.Storage.Operations
import BonsaiDb.Storage.Lifecycle
import BonsaiDb.Storage.Registry
import BonsaiDb.Storage.Cache
import BonsaiDb.Storage.ServerId
import BonsaiDb.Storage.Sessions
import BonsaiDb.Storage.Users
import BonsaiDb.Storage.TreeVault
import BonsaiDb.Client.Worker
import BonsaiDb.Client.Requests
import BonsaiDb.Client.Reconnect
import BonsaiDb.Roots.TokioFile
import BonsaiDb.Views.IntegrityScanner
import BonsaiDb.Storage.Tasks
import BonsaiDb.Storage.ViewUpdates
