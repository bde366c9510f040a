import DistroDefender.Lib.Transition
import DistroDefender.Lib.Effect
import DistroDefender.Lib.Map
import DistroDefender.Lib.OwnedMap
import DistroDefender.Lib.Tally
import DistroDefender.Lib.Owners
import DistroDefender.Lib.Window
import DistroDefender.Lib.Paired
import DistroDefender.Lib.RwLock
import DistroDefender.Lib.Prog
import DistroDefender.Lib.Linearizable
import DistroDefender.Lib.Section
import DistroDefender.Lib.Symbols
import DistroDefender.Lib.Escape
import DistroDefender.Lib.Reread
import DistroDefender.Lib.Occurs
import DistroDefender.Lib.Runs
import DistroDefender.Base.Error
import DistroDefender.Base.StringUtils
import DistroDefender.Base.Splitting
import DistroDefender.Base.MultiDelim
import DistroDefender.Base.Replacing
import DistroDefender.Base.DotPath
import DistroDefender.Base.Name
import DistroDefender.Base.NameText
import DistroDefender.Base.Json
import DistroDefender.Base.Duplicates
import DistroDefender.Base.Getters
import DistroDefender.Base.Schema
import DistroDefender.Base.View
import DistroDefender.Base.Paths
import DistroDefender.Base.JsonPath
import DistroDefender.Base.PathParts
import DistroDefender.Base.Fields
import DistroDefender.Base.Strings
import DistroDefender.Base.Nested
import DistroDefender.Base.Tokens
import DistroDefender.Os.Path
import DistroDefender.Os.Fs
import DistroDefender.Os.Tree
import DistroDefender.Os.Calls
import DistroDefender.Os.Missing
import DistroDefender.Os.Parent
import DistroDefender.Os.Stream
import DistroDefender.Store.NamespaceId
import DistroDefender.Store.RealNames
import DistroDefender.Store.DBDocNames
import DistroDefender.Store.NameCache
import DistroDefender.Store.Driver
import DistroDefender.Store.MemDriver
import DistroDefender.Store.FileDriver
import DistroDefender.Store.Store
import DistroDefender.Store.Represents
import DistroDefender.Store.Refinement
import DistroDefender.Store.Load
import DistroDefender.Store.Restart
import DistroDefender.Store.Clients
import DistroDefender.Store.Locking
import DistroDefender.Store.Stepwise
import DistroDefender.Store.SystemCalls
import DistroDefender.Store.Atomic
import DistroDefender.Store.Damaged
import DistroDefender.Store.Isolation
import DistroDefender.Store.Pruning
import DistroDefender.Store.Root
import DistroDefender.Store.Trace
import DistroDefender.Store.FileTree
import DistroDefender.Store.FileDocs
import DistroDefender.Store.Collections
import DistroDefender.Store.Faults
import DistroDefender.Store.LongNames
import DistroDefender.Store.Listing
import DistroDefender.Catalog.Resource
import DistroDefender.Catalog.Calls
import DistroDefender.Catalog.Catalog
import DistroDefender.Catalog.Durability
import DistroDefender.Catalog.Interleaving
import DistroDefender.Catalog.Served
import DistroDefender.Catalog.Validated
import DistroDefender.Catalog.Namespaced
import DistroDefender.Catalog.Answered
import DistroDefender.Geo.Locator
import DistroDefender.Geo.Manager
import DistroDefender.Geo.Registry
import DistroDefender.Geo.Entries
import DistroDefender.Geo.Handles
import DistroDefender.Geo.Served
import DistroDefender.Geo.Upsert
import DistroDefender.Geo.Verified
import DistroDefender.Geo.Pairing
import DistroDefender.Geo.Postcondition
import DistroDefender.Geo.Cache
import DistroDefender.Geo.Internal
import DistroDefender.Geo.Records
import DistroDefender.Geo.Reconstruct
import DistroDefender.Geo.Refreshing
import DistroDefender.Geo.Refused
import DistroDefender.Geo.Writers
import DistroDefender.Geo.Removal
import DistroDefender.Geo.Addresses
import DistroDefender.Geo.Dump
import DistroDefender.Geo.EntryTree
import DistroDefender.Geo.Rebuild
import DistroDefender.Kvdb.RocksDB
import DistroDefender.Kvdb.MemRocksDB
import DistroDefender.Kvdb.RefCount
import DistroDefender.Kvdb.Manager
import DistroDefender.Kvdb.Sessions
import DistroDefender.Kvdb.Counts
import DistroDefender.Kvdb.Scopes
import DistroDefender.Kvdb.Mirror
import DistroDefender.Kvdb.AllOrNothing
import DistroDefender.Kvdb.Threads
import DistroDefender.Kvdb.Handler
import DistroDefender.Kvdb.Data
import DistroDefender.Kvdb.Databases
import DistroDefender.Kvdb.Loading
import DistroDefender.Kvdb.DataRefinement
import DistroDefender.Kvdb.CollectionLocks
import DistroDefender.Api.Adapter
import DistroDefender.Api.Schemas
import DistroDefender.Api.Kvdb
import DistroDefender.Api.Geo
import DistroDefender.Api.Routes
import DistroDefender.Api.CatalogAnswers
import DistroDefender.Api.Entries
import DistroDefender.Conf.Unit
import DistroDefender.Conf.Parsing
import DistroDefender.Conf.Conf
import DistroDefender.Conf.Honoured
