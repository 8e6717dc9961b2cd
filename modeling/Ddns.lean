import Ddns.Core.EndpointLegacy
import Ddns.Core.EndpointSigning
import Ddns.Core.SignatureBase
import Ddns.Core.PacketAnswer
import Ddns.Core.PacketRecovery
import Ddns.Core.PacketCursor
import Ddns.Publishers.PublishedPacket
import Ddns.Mdns.Publication
import Ddns.Mdns.Custody
import Ddns.Resolvers.LookupAnswer
import Ddns.Resolvers.LookupName
import Ddns.Resolvers.Aggregate
import Ddns.H3.Invalidation
import Ddns.H3.Spelling
import Ddns.Library.Format
import Ddns.Core.NameTable
import Ddns.Core.NameIdentity
import Ddns.Core.EndpointSetters
import Ddns.Mdns.Router
import Ddns.H3.CacheHistory
import Ddns.Library.Merging
import Ddns.ResolverConfig
import Ddns.Resolvers.Merge
import Ddns.Library.Distinct
import Ddns.Resolvers.EndpointGroup
import Ddns.Mdns.Lookup
import Ddns.Resolvers.AggregateCandidates
import Ddns.Core.VarintWord
import Ddns.Core.SignatureRoundTrip
import Ddns.CacheControl
import Ddns.Mdns.ReconcileLoops
import Ddns.Mdns.Reconciliation
import Ddns.Mdns.RequestQueue
import Ddns.Mdns.Network
import Ddns.Mdns.Provenance
import Ddns.H3.Response
import Ddns.Http.Answers
import Ddns.Http.Hits
import Ddns.H3.Publish
import Ddns.H3.Request
import Ddns.Library.Interleaving
import Ddns.Mdns.SetLookup
import Ddns.Mdns.Shutdown
import Ddns.Publishers.Aggregate
import Ddns.Mdns.Closing
import Ddns.Mdns.Rounds
import Ddns.Resolvers.CandidateFailures
import Ddns.Mdns.Dropping
import Ddns.Resolvers.Nested
