import Denis.Handler.Parser
import Denis.Lib.TtlMap
import Denis.Repo.Domains

/-!
# The cache on the query path (`repo/cache.rs`)

The in-process (L1) cache is a moka cache with per-entry lifetimes
(`TtlExpiry`: the entry's `ttl` in seconds, both on creation and on update), so
it is a `TtlMap`; capacity eviction is not modelled. Keys are written into a
`heapless::String<128>` that refuses a piece it has no room for, and the result
of `write!` is ignored (`let _ =`, cache.rs:186), so a key may be cut short:
`queryKey`.

The text form of a record type is hickory's `Display`, the parameter `display`.
This is the default build, without the `redis` feature.
-/

namespace Denis

open Text

/-- `L1Entry` (`cache.rs:43–46`). -/
structure L1Entry where
  raw : Bytes
  ttl : UInt32
  deriving DecidableEq

/-- `Duration::from_secs`, in nanoseconds. -/
def fromSecs (ttl : UInt32) : Nat := ttl.toNat * 1000000000

/-- `heapless::String<N>`: a string of at most `N` bytes. -/
structure HeaplessString (N : Nat) where
  str : Str
  fits : len str ≤ N

namespace HeaplessString

variable {N : Nat}

/-- `String::new`. -/
def new : HeaplessString N := ⟨[], Nat.zero_le N⟩

/-- `push_str`: a piece that does not fit is refused whole. -/
def pushStr (buf : HeaplessString N) (piece : Str) : Option (HeaplessString N) :=
  if h : len buf.str + len piece ≤ N then some ⟨buf.str ++ piece, by rwa [len_append]⟩
  else none

/-- `let _ = write!(…)`: pieces in order, up to the first refused. -/
def write (buf : HeaplessString N) : List Str → HeaplessString N
  | [] => buf
  | piece :: rest =>
    match buf.pushStr piece with
    | some buf' => buf'.write rest
    | none => buf

end HeaplessString

/-- `Cache` (`cache.rs:71–79`), without its database pool. -/
structure Cache where
  l1 : TtlMap Str L1Entry
  allowList : DomainSet
  blockList : DomainSet

namespace Cache

variable (display : RecordType → Str)

/-- `Cache::query_key` (`cache.rs:185–187`). -/
def queryKey (query : Query) : Str :=
  ((HeaplessString.new : HeaplessString 128).write
    [['d', 'n', 's', ':'], query.name, [':'], display query.queryType]).str

/-- `Cache::add_dns_query_moka` (`cache.rs:124–138`). -/
def addDnsQueryMoka (cache : Cache) (now : Nat) (query : Query) (response : Bytes)
    (ttl : UInt32) : Cache :=
  { cache with
    l1 := cache.l1.insert now (queryKey display query) ⟨response, ttl⟩ (fromSecs ttl) }

/-- `Cache::is_blocked` (`cache.rs:141–145`), both lists loaded at one moment. -/
def isBlocked (cache : Cache) (name : Str) : Bool :=
  Repo.decide cache.blockList cache.allowList name

/-- `Cache::l1_get` (`cache.rs:147–151`). -/
def l1Get (cache : Cache) (now : Nat) (query : Query) : Option Bytes :=
  (cache.l1.get now (queryKey display query)).map L1Entry.raw

/-- `Cache::check_and_get` (`cache.rs:153–182`); without Redis it cannot fail. -/
def checkAndGet (cache : Cache) (now : Nat) (query : Query) : Bool × Option Bytes :=
  if cache.isBlocked query.name then (true, none)
  else
    match cache.l1.get now (queryKey display query) with
    | some entry => (false, some entry.raw)
    | none => (false, none)

variable {display}

/-- The entry a hit was read from. -/
theorem l1Get_eq_some {cache : Cache} {now : Nat} {query : Query} {raw : Bytes}
    (h : cache.l1Get display now query = some raw) :
    ∃ x, cache.l1 (queryKey display query) = some x ∧ now < x.deadline ∧
      x.value.raw = raw := by
  obtain ⟨entry, hget, rfl⟩ := Option.map_eq_some_iff.mp h
  obtain ⟨x, hx, hlive, rfl⟩ := TtlMap.get_eq_some.mp hget
  exact ⟨x, hx, hlive, rfl⟩

/-- `check_and_get` is the block decision, then `l1_get`. -/
theorem checkAndGet_eq (cache : Cache) (now : Nat) (query : Query) :
    cache.checkAndGet display now query =
      if cache.isBlocked query.name then (true, none)
      else (false, cache.l1Get display now query) := by
  unfold checkAndGet l1Get
  split
  · rfl
  · cases cache.l1.get now (queryKey display query) <;> rfl

end Cache

end Denis
