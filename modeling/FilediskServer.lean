import FilediskServer.Library.Wp
import FilediskServer.Redis
import FilediskServer.Filetree
import FilediskServer.Confinement
import FilediskServer.KeyTypes
import FilediskServer.DirInfoServer
import FilediskServer.Readers
import FilediskServer.Lifetimes
import FilediskServer.ConcurrentUploads
import FilediskServer.ServerShutdown
import FilediskServer.BoundedQueue
import FilediskServer.DescriptorOwners
import FilediskServer.SessionOrder
import FilediskServer.UploadProtocol
import FilediskServer.SessionEffects
import FilediskServer.TruncatedRequests
import FilediskServer.UserAccounts
import FilediskServer.SessionStore
import FilediskServer.DirStatements
import FilediskServer.DirEntries
import FilediskServer.Library.Parties
import FilediskServer.Framing
import FilediskServer.EventLoop
import FilediskServer.DownloadEffects
import FilediskServer.DownloadRecords
import FilediskServer.ChunkOrder
import FilediskServer.FileStatements
import FilediskServer.TableRows
import FilediskServer.FailedStores
import FilediskServer.ReceiveLoop
import FilediskServer.SizeRange
import FilediskServer.Library.Extension
import FilediskServer.ExactReads
import FilediskServer.Library.Lines
import FilediskServer.ReadLine
import FilediskServer.LineResults
import FilediskServer.WireLengths
import FilediskServer.DirectoryNames
import FilediskServer.RetriedUploads
import FilediskServer.ContentPath
import FilediskServer.Gateway
import FilediskServer.ServerStore
import FilediskServer.StarvedServer
import FilediskServer.RowOrigins
import FilediskServer.QueueHistories
import FilediskServer.Deployment
import FilediskServer.Dispatch
import FilediskServer.CrashingRequests
