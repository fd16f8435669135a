import CachedStore.Activity.Plan
import CachedStore.Description
import CachedStore.Proofs.Repository.Conduct
import CachedStore.Proofs.Repository.Creation
import CachedStore.Record.Account
import CachedStore.Record.Loose
import CachedStore.Service.Answer
import CachedStore.Settings
import CachedStore.Proofs.Record.Columns
import CachedStore.Proofs.Record.Lawful
import CachedStore.Proofs.Repository.Operation
import CachedStore.Proofs.Repository.Aftermath
import CachedStore.Proofs.Repository.Coherence
import CachedStore.Proofs.Repository.FilterReads
import CachedStore.Proofs.Repository.CreateRace
import CachedStore.Proofs.Service.ConcurrentEdits
import CachedStore.Proofs.Activity.Clocked
import CachedStore.Proofs.Repository.Alone
import CachedStore.Proofs.Service.CacheKeys
import CachedStore.Proofs.Service.Transparency
import CachedStore.Proofs.Repository.PlannedRuns
import CachedStore.Proofs.Store.FaithfulRows
import CachedStore.Proofs.Service.ReadYourWrites
import CachedStore.Proofs.Store.FirstMatch
import CachedStore.Proofs.Store.Representation
import CachedStore.Proofs.Store.Requests
import CachedStore.Proofs.Store.ReadPaths
import CachedStore.Proofs.Store.Listing
import CachedStore.Proofs.Cache.Sharding
import CachedStore.Proofs.Cache.Eviction
import CachedStore.Proofs.Repository.Loading
import CachedStore.Proofs.Repository.IndexSize
import CachedStore.Proofs.Repository.FailedOperations
import CachedStore.Proofs.Repository.Exchanges
import CachedStore.Proofs.Repository.NaturalKeys
import CachedStore.Proofs.Repository.Histories
import CachedStore.Proofs.Repository.ReadThrough
import CachedStore.Proofs.Service.SoftDeletion
import CachedStore.Proofs.Service.Addresses
import CachedStore.Proofs.Record.Ordering
import CachedStore.Proofs.Record.Selection
import CachedStore.Proofs.Repository.ConditionalCreation
import CachedStore.Proofs.Time.Chronology
import CachedStore.Proofs.Time.TextOrder
import CachedStore.Proofs.Service.TimeOrder
import CachedStore.Proofs.Number.Rounding
import CachedStore.Proofs.Store.IntegerOrder
import CachedStore.Proofs.Store.DeterminedListing
import CachedStore.Proofs.Cache.Shares
import CachedStore.Proofs.Cache.Accounting
import CachedStore.Proofs.Cache.Liveness
import CachedStore.Proofs.Text.Separation
import CachedStore.Proofs.Service.AcceptedNames
import CachedStore.Proofs.Service.NamedChanges
import CachedStore.Proofs.Cache.SlabLayout
import CachedStore.Proofs.Cache.SlabSize
import CachedStore.Proofs.Repository.TrackedPairs
