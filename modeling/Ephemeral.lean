import Ephemeral.BoundedQueueRun
import Ephemeral.ConnectRetry
import Ephemeral.DnsAgreement
import Ephemeral.DnsFilter
import Ephemeral.DpdkTlsHandover
import Ephemeral.EvictingQueueStats
import Ephemeral.FixAgreement
import Ephemeral.FixOutbound
import Ephemeral.FixReuse
import Ephemeral.HttpConnectRun
import Ephemeral.HttpPairing
import Ephemeral.IcmpDirectoryOwner
import Ephemeral.IcmpDirectoryStale
import Ephemeral.ItchTopOfBook
import Ephemeral.LengthDelimited
import Ephemeral.Mold64Codec
import Ephemeral.MpRegistry
import Ephemeral.OrderPositions
import Ephemeral.PlainCodecErrors
import Ephemeral.PollerChurn
import Ephemeral.QueueAllocator
import Ephemeral.ReconnectBudget
import Ephemeral.RiskCheck
import Ephemeral.SbeAccessors
import Ephemeral.TcpDuplicates
import Ephemeral.TcpFin
import Ephemeral.TcpReorderStale
import Ephemeral.TcpReset
import Ephemeral.TlsAuthenticity
import Ephemeral.TlsPadding
import Ephemeral.TokenBucket
import Ephemeral.WsStream
