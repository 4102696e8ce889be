import OcnRegistry.Library.Machine
import OcnRegistry.Library.Reservation
import OcnRegistry.Library.Roster
import OcnRegistry.Library.Naming
import OcnRegistry.AccessControl
import OcnRegistry.Validator
import OcnRegistry.Registry.Contract
import OcnRegistry.Registry.Run
import OcnRegistry.Registry.Nodes
import OcnRegistry.Registry.Raw
import OcnRegistry.Registry.Keys
import OcnRegistry.Registry.Frame
import OcnRegistry.Registry.Slots
import OcnRegistry.Registry.Queries
import OcnRegistry.Registry.Listings
import OcnRegistry.System
import OcnRegistry.Directory
import OcnRegistry.Registry.Links
import OcnRegistry.Registry.Unlisted
import OcnRegistry.CertificateOwners
import OcnRegistry.Acceptance
import OcnRegistry.Certification
import OcnRegistry.Payments.Contract
import OcnRegistry.Payments.Run
import OcnRegistry.Library.Escrow
import OcnRegistry.Payments.Stakes
import OcnRegistry.Library.Nesting
import OcnRegistry.Payments.Reentrancy
import OcnRegistry.Payments.OneStake
import OcnRegistry.Payments.Status
import OcnRegistry.Library.Token
import OcnRegistry.Payments.Solvency
import OcnRegistry.Payments.Handover
import OcnRegistry.Ownership
import OcnRegistry.Library.Utf8
import OcnRegistry.Client.Wrapper
import OcnRegistry.Client.Nodes
import OcnRegistry.Client.Parties
import OcnRegistry.Registry.Lookup
import OcnRegistry.Network
import OcnRegistry.Client.Keys
import OcnRegistry.Client.Signing
import OcnRegistry.Indexer.Handlers
import OcnRegistry.Indexer.Ids
import OcnRegistry.Indexer.Run
import OcnRegistry.Indexer.Mirror
import OcnRegistry.Indexer.Deleted
import OcnRegistry.Library.LossyUtf8
import OcnRegistry.Indexer.Collisions
import OcnRegistry.Library.Fields
import OcnRegistry.Gate.Script
import OcnRegistry.Gate.Diff
import OcnRegistry.Gate.Keys
import OcnRegistry.Gate.Leaks
import OcnRegistry.Registry.Replay
import OcnRegistry.Indexer.Journal
import OcnRegistry.Indexer.Chronicle
import OcnRegistry.Client.Sessions
import OcnRegistry.Indexer.Schema
import OcnRegistry.Authority
import OcnRegistry.Deploy
import OcnRegistry.Governance
import OcnRegistry.Client.Publish
import OcnRegistry.Gate.Lines
import OcnRegistry.Library.Purge
import OcnRegistry.Tenants
import OcnRegistry.Proposals
import OcnRegistry.Library.Holdings
import OcnRegistry.Payments.Stakers
import OcnRegistry.Library.Amend
import OcnRegistry.Release.Manifest
import OcnRegistry.Release.Preflight
import OcnRegistry.Client.Certificates
import OcnRegistry.Client.Vouching
