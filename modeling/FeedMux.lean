import FeedMux.Shred.Layout
import FeedMux.Shred.Eviction
import FeedMux.Shred.Buffering
import FeedMux.Shred.TxEstimate
import FeedMux.Upstream.Duplicates
import FeedMux.Upstream.Datagrams
import FeedMux.Upstream.Reconnect
import FeedMux.Upstream.TitanFailures
import FeedMux.Boot
import FeedMux.TritonLocal
import FeedMux.TitanLocal
import FeedMux.RateLimit
import FeedMux.Backoff
import FeedMux.Titan.BoardAges
import FeedMux.Titan.MapOrder
import FeedMux.Titan.PubkeyEncodings
import FeedMux.Titan.HuntLadder
import FeedMux.Titan.Confirmation
import FeedMux.Upstream.GrpcErrors
import FeedMux.Upstream.GrpcRefusals
import FeedMux.Upstream.RequestRate
import FeedMux.Freshness
import FeedMux.TitanClient
import FeedMux.TritonClient
import FeedMux.Environment
import FeedMux.Feed
import FeedMux.RedisTexts
import FeedMux.Health
import FeedMux.Wakes
import FeedMux.BoardRows
