import RusqDoltlite.Session.Fencing
import RusqDoltlite.Session.FreshSession
import RusqDoltlite.Session.Runs
import RusqDoltlite.Session.Status
import RusqDoltlite.Blocks.SparseRun
import RusqDoltlite.Codec.Collector
import RusqDoltlite.Cleanup.Embedded
import RusqDoltlite.Http.Fetch
import RusqDoltlite.Sync.Clone
import RusqDoltlite.Http.ReadResponse
import RusqDoltlite.S3.Requests
import RusqDoltlite.Cloud.Layout
import RusqDoltlite.Cloud.Provider
import RusqDoltlite.Cloud.Redaction
import RusqDoltlite.Blocks.Watermark
import RusqDoltlite.Cleanup.Marks
import RusqDoltlite.Cloud.Create
import RusqDoltlite.Cloud.Dispatch
