import BitRev.Dht.Announced
import BitRev.Dht.Buckets
import BitRev.Dht.Hearsay
import BitRev.Dht.Private
import BitRev.Dht.Refresh
import BitRev.Dht.Search
import BitRev.Metadata.Answers
import BitRev.Metainfo.Depth
import BitRev.Mse.Duplex
import BitRev.Mse.Flush
import BitRev.Peer.AllowedFast
import BitRev.Peer.Announce
import BitRev.Peer.Answers
import BitRev.Peer.Cancels
import BitRev.Peer.Counts
import BitRev.Peer.Permitted
import BitRev.Peer.Wire
import BitRev.Pieces.Endgame
import BitRev.Pieces.Lost
import BitRev.Resume.Atomic
import BitRev.Server.Auth
import BitRev.Server.Sync
import BitRev.Session.Agreement
import BitRev.Session.Completed
import BitRev.Session.Exclusive
import BitRev.Session.Journal
import BitRev.Session.Place
import BitRev.Session.PortMap
import BitRev.Session.Removed
import BitRev.Session.Single
import BitRev.Session.Slots
import BitRev.Session.Watch
import BitRev.Storage.Spans
import BitRev.Swarm.Bans
import BitRev.Swarm.Blocklist
import BitRev.Swarm.Choke
import BitRev.Swarm.Reload
import BitRev.Tracker.Pacing
import BitRev.Utp.Delay
import BitRev.Utp.Resets
