import Veld.Dataplane.Revocation
import Veld.Acl.Watcher
import Veld.Coord.Expiry
import Veld.Coord.Endpoints
import Veld.Client.Reconnect
import Veld.Handshake.Replay
import Veld.Handshake.Sync
import Veld.Dataplane.Decrypt
import Veld.Acl.FlowRefinement
import Veld.Relay.Pairing
import Veld.Relay.Accounting
import Veld.Relay.Freshness
import Veld.Tofu.Processes
import Veld.Coord.Signals
import Veld.Coord.Online
import Veld.Coord.Accounts
import Veld.Acl.Replacement
import Veld.Dataplane.Readers
import Veld.Daemon.Mesh
import Veld.Relay.Path
import Veld.Coord.Migration
import Veld.Traversal.Vouched
import Veld.Client.Signing
import Veld.Dataplane.Rejection
import Veld.Dataplane.Speakers
import Veld.Tofu.Durability
import Veld.Coord.Rollback
import Veld.Route.Reserved
import Veld.Daemon.Advertise
import Veld.Acl.Warnings
import Veld.Stun.Response
import Veld.Acl.Ports
import Veld.Dns.Resolver
import Veld.Coexist.Suggest
import Veld.Logsafe.Scrub
