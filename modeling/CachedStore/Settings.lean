import CachedStore.Record.Document
import CachedStore.Repository.Basic
import CachedStore.Text.Blank
import CachedStore.Text.Word

/-!
Settings of the service, by named variables. A variable that is missing or cannot be read leaves the
default; blanks around a value do not count.
-/

namespace CachedStore

structure Settings where
  cacheCapacity : UInt64
  cacheShards : UInt64
  /-- In seconds. -/
  readTtl : UInt64
  /-- In milliseconds. -/
  queryTimeout : UInt64
  invalidateOnWrite : Bool
  serverPort : UInt16
deriving DecidableEq, Repr

namespace Settings

def standard : Settings := ⟨1000, 1, 600, 5000, true, 3000⟩

def word (value : Option String) (fallback : UInt64) : UInt64 :=
  ((value.bind (Text.readWord? (2 ^ 64))).map UInt64.ofNat).getD fallback

def ofLookup (lookup : String → Option String) : Settings :=
  let value := fun name => (lookup name).map Text.trim
  { cacheCapacity := word (value "CACHE_CAPACITY") standard.cacheCapacity
    cacheShards := word (value "CACHE_SHARDS") standard.cacheShards
    readTtl := word (value "READ_TTL") standard.readTtl
    queryTimeout := word (value "QUERY_TIMEOUT_MS") standard.queryTimeout
    invalidateOnWrite :=
      ((value "INVALIDATE_ON_WRITE").bind Text.readSwitch?).getD standard.invalidateOnWrite
    serverPort :=
      (((value "SERVER_PORT").bind (Text.readWord? (2 ^ 16))).map UInt16.ofNat).getD
        standard.serverPort }

def zeroSetting (name : String) : Failure :=
  ⟨.configuration, name ++ " must be greater than zero"⟩

def validate (settings : Settings) : Except Failure Unit :=
  if settings.cacheCapacity = 0 then .error (zeroSetting "CACHE_CAPACITY")
  else if settings.cacheShards = 0 then .error (zeroSetting "CACHE_SHARDS")
  else if settings.queryTimeout = 0 then .error (zeroSetting "QUERY_TIMEOUT_MS")
  else .ok ()

def readLifetime (settings : Settings) : Duration := .ofSeconds settings.readTtl.toNat

def queryLimit (settings : Settings) : Duration := .ofMilliseconds settings.queryTimeout.toNat

def invalidation (settings : Settings) : Invalidation :=
  if settings.invalidateOnWrite then .byIdentity else .disabled

def repository (settings : Settings) : Repository :=
  ⟨settings.readLifetime, settings.queryLimit, settings.invalidation, true⟩

/-- One cache, or one in shards if there is more than one. -/
def cache {α : Type} (settings : Settings) : Except Obstacle (ReadCache α) :=
  ReadCache.create settings.cacheCapacity
    (if 1 < settings.cacheShards then some settings.cacheShards else none)

def start (settings : Settings) (store : MemoryStore Document) :
    Except Obstacle (RepositoryState Document) := do
  settings.validate.mapError .failure
  let cache ← settings.cache
  (settings.repository.build (some cache) store).mapError .failure

end Settings

end CachedStore
