import PowDB.Storage.SchemaRun
import PowDB.Storage.FileRun
import PowDB.Storage.TxSpans
import PowDB.Storage.WalFile
import PowDB.Storage.GroupCommit
import PowDB.Storage.IndexDeclarations
import PowDB.Storage.ColumnDefaults
import PowDB.Storage.SchemaRefusals
import PowDB.Storage.HeapRun
import PowDB.Storage.HeapSearch
import PowDB.Storage.MaintainedSchema
import PowDB.Query.Like
import PowDB.Query.Comparison
import PowDB.Query.FilterLogic
import PowDB.Query.SchemaNames
import PowDB.Query.Join
import PowDB.Query.WindowVisit
import PowDB.Query.NestedSpec
import PowDB.Query.ViewsRun
import PowDB.Query.TransactionsRun
import PowDB.Query.ParamsInert
import PowDB.Query.MutationClauses
import PowDB.Query.RankEstimates
import PowDB.Query.CancellableSort
import PowDB.Query.DateParts
import PowDB.Query.Links
import PowDB.Sync.CursorLock
import PowDB.Sync.RetentionRun
import PowDB.Sync.TailProgress
import PowDB.Server.AuthThrottle
import PowDB.Server.GateDraining
import PowDB.Storage.BatchDeletes
import PowDB.Storage.IntPaths
