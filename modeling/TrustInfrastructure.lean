import TrustInfrastructure.Rooms.RowUpdates
import TrustInfrastructure.Rooms.Keys
import TrustInfrastructure.Rooms.MirrorSync
import TrustInfrastructure.Rooms.TreeHead
import TrustInfrastructure.Rooms.Curation
import TrustInfrastructure.Rooms.Retention
import TrustInfrastructure.Rooms.NextList
import TrustInfrastructure.Rooms.Withdrawals
import TrustInfrastructure.Rooms.ChainVerifier
import TrustInfrastructure.Rooms.Lifecycle
import TrustInfrastructure.Common.Counter
import TrustInfrastructure.Common.SenderOrder
import TrustInfrastructure.Blobs.Limits
import TrustInfrastructure.Blobs.Apart
import TrustInfrastructure.Blobs.Prune
import TrustInfrastructure.Access.HandOff
import TrustInfrastructure.Consent.Once
import TrustInfrastructure.Idempotency.Once
import TrustInfrastructure.Auth.Idle
import TrustInfrastructure.StatusList.Slots
import TrustInfrastructure.Community.Departure
import TrustInfrastructure.Community.DynamicGroups
import TrustInfrastructure.Community.Writes
import TrustInfrastructure.Voting.KeyCeremony
import TrustInfrastructure.GitNs.Projection
import TrustInfrastructure.Registry.Mirror
