import Mathlib.Data.List.Basic

/-!
# Runtime configuration (`config.rs`) and the protocol types it speaks of

- `RecordType` is hickory's record type, known by its 16-bit code (`from(u16)`
  and `u16::from` are inverse to each other), so distinct codes are distinct
  types; its text form is not modelled here.
- `ResponseCode` has the constructors the code builds; `u16::from` is `toU16`.
- `RuntimeConfig::clamp_ttl` and `RuntimeConfig::zero_ip` are as in
  `config.rs:59–73`.

Settings only the upstream client and the API read beyond these are the
upstream list and the timeout; the timeout is kept as data.
-/

namespace Denis

/-- `hickory_proto::rr::RecordType`, by its wire code. -/
structure RecordType where
  code : UInt16
  deriving DecidableEq, Repr

namespace RecordType

/-- `RecordType::A`. -/
def a : RecordType := ⟨1⟩

/-- `RecordType::AAAA`. -/
def aaaa : RecordType := ⟨28⟩

end RecordType

/-- `hickory_proto::op::ResponseCode`, as far as the code constructs it. -/
inductive ResponseCode
  | noError
  | servFail
  | nxDomain
  | refused
  | unknown (code : UInt16)
  deriving DecidableEq, Repr

/-- `u16::from(ResponseCode)`. -/
def ResponseCode.toU16 : ResponseCode → UInt16
  | .noError => 0
  | .servFail => 2
  | .nxDomain => 3
  | .refused => 5
  | .unknown code => code

/-- `std::net::IpAddr`, by its octets. -/
inductive IpAddr
  | v4 (octets : Vector UInt8 4)
  | v6 (octets : Vector UInt8 16)
  deriving DecidableEq

/-- `std::net::SocketAddr`. -/
structure SocketAddr where
  ip : IpAddr
  port : UInt16
  deriving DecidableEq

/-- How blocked names are answered (`config.rs:16–20`). -/
inductive BlockingMode
  | nxDomain
  | refused
  | zeroIp
  deriving DecidableEq, Repr

/-- `BlockingMode::default` (`config.rs:22–26`). -/
instance : Inhabited BlockingMode := ⟨.nxDomain⟩

/-- `default_neg_ttl` (`config.rs:28–30`). -/
def defaultNegTtl : UInt32 := 60

/-- `RuntimeConfig` (`config.rs:33–41`). -/
structure RuntimeConfig where
  upstreams : List SocketAddr
  upstreamTimeoutMs : UInt64
  blockingMode : BlockingMode
  cacheMinTtl : UInt32
  cacheMaxTtl : UInt32
  negTtl : UInt32
  deriving DecidableEq

namespace RuntimeConfig

/-- `RuntimeConfig::from_cli` (`config.rs:44–53`), of the upstream options. -/
def fromCli (servers : List SocketAddr) (timeoutMs : UInt64) : RuntimeConfig where
  upstreams := servers
  upstreamTimeoutMs := timeoutMs
  blockingMode := default
  cacheMinTtl := 0
  cacheMaxTtl := 86400
  negTtl := defaultNegTtl

/-- `u32::clamp`. -/
def clamp (x lo hi : UInt32) : UInt32 :=
  if x < lo then lo else if hi < x then hi else x

/-- `RuntimeConfig::clamp_ttl` (`config.rs:59–64`). -/
def clampTtl (config : RuntimeConfig) (ttl : UInt32) : UInt32 :=
  clamp ttl config.cacheMinTtl (max config.cacheMaxTtl config.cacheMinTtl)

/-- `RuntimeConfig::zero_ip` (`config.rs:66–73`). -/
def zeroIp (qtype : RecordType) : Option IpAddr :=
  if qtype = RecordType.a then some (.v4 (Vector.replicate 4 0))
  else if qtype = RecordType.aaaa then some (.v6 (Vector.replicate 16 0))
  else none

end RuntimeConfig

end Denis
