import Portail.Http.DotSegments
import Portail.Routing.HostCase
import Portail.Config.Pruned
import Portail.Config.ParentRefs
import Portail.Config.Hostnames
import Portail.Dataplane.Limiters
import Portail.Dataplane.Reports
import Portail.RateLimit.Sweep
import Portail.Proxy.FilteredRoundTrip
import Portail.Proxy.Sniff
import Portail.Proxy.StrippedLines
import Portail.Proxy.BackendPool
import Portail.Proxy.Health
import Portail.Proxy.UdpSessions
import Portail.Proxy.TlsRoute
import Portail.Proxy.ClientHello
import Portail.Proxy.H2Body
import Portail.Proxy.H2Head
import Portail.Proxy.PlanHistory
import Portail.Proxy.Endpoints
import Portail.Controller.Evidence
import Portail.Controller.Accounts
import Portail.Controller.AuthLaws
import Portail.Controller.HubLaws
import Portail.Controller.LeaderLaws
import Portail.Controller.StatusEntries
import Portail.Kubernetes.GrantLaws
import Portail.Kubernetes.ListenerLaws
import Portail.Kubernetes.PolicyLaws
import Portail.Kubernetes.RouteVerdicts
