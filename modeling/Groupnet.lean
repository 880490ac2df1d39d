import Groupnet.Anchor.Allocator
import Groupnet.Gossip.Convergence
import Groupnet.Hosted.Hostship
import Groupnet.Hosted.Stamps
import Groupnet.Lease.Guarantee
import Groupnet.Gossip.Metadata
import Groupnet.Placement.Disruption
import Groupnet.Hosted.Delivery
import Groupnet.Feed.Follow
import Groupnet.Replication.Gate
import Groupnet.Hosted.Transfer
import Groupnet.Hosted.Publication
import Groupnet.Hosted.Beliefs
import Groupnet.Gossip.Rounds
import Groupnet.Gossip.Budget
import Groupnet.Entry
import Groupnet.Feed.Frame
import Groupnet.Network.Reassembly
import Groupnet.Bootstrap.Readback
import Groupnet.Network.Reach
import Groupnet.Store.GrantRecord
import Groupnet.Transport.Framing
import Groupnet.Gossip.Probers
import Groupnet.Gossip.Hashes
