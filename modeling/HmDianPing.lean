import HmDianPing.Seckill.Transactions
import HmDianPing.Seckill.Settlement
import HmDianPing.Seckill.SyncOrder
import HmDianPing.Seckill.Finality
import HmDianPing.Seckill.Coverage
import HmDianPing.Seckill.Release
import HmDianPing.Seckill.StatusTruth
import HmDianPing.Cache.Lease
import HmDianPing.Cache.Coherence
import HmDianPing.Seckill.Compensation
import HmDianPing.Limit.SlidingWindow
import HmDianPing.Social.Feed
import HmDianPing.Social.FollowRuns
import HmDianPing.Social.FanOut
import HmDianPing.Social.CommonFollows
import HmDianPing.Login.Identity
import HmDianPing.Login.Logout
import HmDianPing.Cache.TwoStage
import HmDianPing.Cache.Transparency
import HmDianPing.Seckill.Agreement
import HmDianPing.Frontend.Destination
import HmDianPing.Text.Utf8
import HmDianPing.Text.UrlEncoded
import HmDianPing.Text.Uuid
import HmDianPing.Frontend.Requests
import HmDianPing.Frontend.ShopPages
import HmDianPing.Upload.BlogImages
import HmDianPing.Upload.Storage
import HmDianPing.Limit.ExactLog
import HmDianPing.Limit.RateLimitAspect
import HmDianPing.Cache.Degradation
import HmDianPing.Login.ProfileUpdate
import HmDianPing.Social.Activity
import HmDianPing.Cache.RetryBound
import HmDianPing.Cache.DelayedStage
import HmDianPing.Seckill.Republish
import HmDianPing.Seckill.RepublishBound
import HmDianPing.Frontend.SafeContent
import HmDianPing.Seckill.RedisKeys
import HmDianPing.Seckill.Correlation
import HmDianPing.Seckill.RetryCount
import HmDianPing.Login.SignIn
import HmDianPing.Geo.ShopPaging
import HmDianPing.Ranking.Pages
import HmDianPing.Geo.Discovery
import HmDianPing.Login.SmsQuota
import HmDianPing.Login.SendQuota
import HmDianPing.Login.SmsCode
import HmDianPing.Seckill.Publish
import HmDianPing.Seckill.PublishedSales
import HmDianPing.Seckill.Ownership
import HmDianPing.Amqp.Topology
import HmDianPing.Redis.Lease
import HmDianPing.Lock.SimpleRedisLock
import HmDianPing.Seckill.RabbitMqConfig
import HmDianPing.Seckill.BrokerRefinement
import HmDianPing.Login.DrawnCodes
import HmDianPing.Login.Authentication
import HmDianPing.Upload.NoteEditor
import HmDianPing.Interleaving.Progress
import HmDianPing.Seckill.Redelivery
import HmDianPing.Seckill.Recovery
import HmDianPing.Frontend.ShopListing
