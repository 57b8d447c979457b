import Ember.Dht.StoreConvergence
import Ember.Dht.FindValueDrift
import Ember.Dht.SearchWord
import Ember.Dht.RoutingIndex
import Ember.Dht.RoutingTicks
import Ember.Dht.RoutingPin
import Ember.Dht.ValueBlob
import Ember.Dht.RoutingNearest
import Ember.Dht.RecordName
import Ember.Dht.ProxyGrants
import Ember.Ed2k.WriteReservations
import Ember.Ed2k.Withdrawals
import Ember.Ed2k.AichRoot
import Ember.Search.Terms
import Ember.Transport.Replay
import Ember.Transport.Addressed
import Ember.Transport.Deferred
import Ember.Transport.Rejected
import Ember.Transport.DialLog
import Ember.Kad.IpFilterSet
import Ember.Rendezvous.Lookalikes
import Ember.Rendezvous.Tenure
import Ember.Rendezvous.Tombstones
import Ember.Bandwidth.Reserve
import Ember.Ed2k.CreditOwnership
import Ember.Kad.Flood
import Ember.Security.Filenames
import Ember.Channel.Gossip
import Ember.Channel.Xfer
import Ember.Feed.ChunkList
import Ember.Reputation.Decay
