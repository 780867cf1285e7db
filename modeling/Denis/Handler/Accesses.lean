import Denis.Handler.Query
import Denis.Lib.Indexing

/-!
# The unchecked accesses of the reply path

The replies, the TTL to cache under and the exchange with an upstream, with each
access that the program stops on when it is out of range: `none` if any is. They
compute what the functions without them do, whatever the query and the bytes,
except that `exchange` needs a query with room for a transaction id.
-/

namespace Denis

open Text Indexing

namespace Checked

/-! ## Replies -/

/-- `UpstreamResponse::cached` (`upstream.rs:35–45`). -/
def cached (query : Query) (raw : Bytes) : Option UpstreamResponse := do
  let raw ←
    if 2 ≤ raw.length ∧ 2 ≤ query.raw.length then do
      let raw ← store raw 0 (← index query.raw 0)
      store raw 1 (← index query.raw 1)
    else some raw
  some { code := rcodeFromRaw raw, raw }

/-- `UpstreamResponse::nxdomain` (`upstream.rs:57–77`). -/
def nxdomain (query : Query) : Option UpstreamResponse := do
  let raw ← sliceTo query.raw (min query.answerOffset query.raw.length)
  let raw ←
    if 12 ≤ raw.length then do
      let rd := (← index raw 2) &&& 0x01
      let raw ← store raw 2 (0x84 ||| rd)
      let raw ← store raw 3 0x83
      let raw ← store raw 6 0
      let raw ← store raw 7 0
      let raw ← store raw 8 0
      let raw ← store raw 9 0
      let raw ← store raw 10 0
      store raw 11 0
    else some raw
  some { code := .nxDomain, raw }

/-- `UpstreamResponse::refused` (`upstream.rs:79–94`). -/
def refused (query : Query) : Option UpstreamResponse := do
  let raw ← sliceTo query.raw (min query.answerOffset query.raw.length)
  let raw ←
    if 12 ≤ raw.length then do
      let rd := (← index raw 2) &&& 0x01
      let raw ← store raw 2 (0x80 ||| rd)
      let raw ← store raw 3 0x05
      fillRange raw 6 12 0
    else some raw
  some { code := .refused, raw }

/-- `UpstreamResponse::zero_ip` (`upstream.rs:96–126`). -/
def zeroIp (query : Query) (ip : IpAddr) : Option UpstreamResponse := do
  let raw ← sliceTo query.raw (min query.answerOffset query.raw.length)
  if raw.length < 12 then nxdomain query
  else
    let rd := (← index raw 2) &&& 0x01
    let raw ← store raw 2 (0x84 ||| rd)
    let raw ← store raw 3 0x80
    let raw ← copyRange raw 6 8 (UpstreamResponse.u16BeBytes 1)
    let raw ← fillRange raw 8 12 0
    let (rtype, rdata) := UpstreamResponse.zeroIpRecord ip
    some {
      code := .noError
      raw := raw ++ [0xC0, 0x0C] ++ UpstreamResponse.u16BeBytes rtype ++
        UpstreamResponse.u16BeBytes 1 ++ [0, 0, 0, 60] ++
        UpstreamResponse.u16BeBytes rdata.length ++ rdata }

/-- `UpstreamResponse::blocked` (`upstream.rs:46–55`). -/
def blocked (query : Query) (mode : BlockingMode) : Option UpstreamResponse :=
  match mode with
  | .nxDomain => nxdomain query
  | .refused => refused query
  | .zeroIp =>
    match RuntimeConfig.zeroIp query.queryType with
    | some ip => zeroIp query ip
    | none => nxdomain query

theorem question_eq (query : Query) :
    sliceTo query.raw (min query.answerOffset query.raw.length) =
      some (UpstreamResponse.question query) :=
  sliceTo_eq (Nat.min_le_right ..)

theorem cached_eq (query : Query) (raw : Bytes) :
    cached query raw = some (UpstreamResponse.cached query raw) := by
  unfold cached UpstreamResponse.cached
  by_cases h : 2 ≤ raw.length ∧ 2 ≤ query.raw.length
  · have h0 : index query.raw 0 = some (query.raw.getD 0 0) := index_eq (by omega) 0
    have h1 : index query.raw 1 = some (query.raw.getD 1 0) := index_eq (by omega) 0
    rw [if_pos h, if_pos h, h0, h1]
    simp (disch := (try simp only [List.length_set, List.length_mapIdx]); omega) [store_eq]
  · rw [if_neg h, if_neg h]
    rfl

theorem nxdomain_eq (query : Query) : nxdomain query = some (UpstreamResponse.nxdomain query) := by
  unfold nxdomain UpstreamResponse.nxdomain
  rw [question_eq]
  generalize UpstreamResponse.question query = raw
  dsimp only [Option.bind_eq_bind, Option.bind_some]
  by_cases h : 12 ≤ raw.length
  · have h2 : index raw 2 = some (raw.getD 2 0) := index_eq (by omega) 0
    rw [if_pos h, if_pos h, h2]
    simp (disch := (try simp only [List.length_set, List.length_mapIdx]); omega) [store_eq]
  · rw [if_neg h, if_neg h]

theorem refused_eq (query : Query) : refused query = some (UpstreamResponse.refused query) := by
  unfold refused UpstreamResponse.refused
  rw [question_eq]
  generalize UpstreamResponse.question query = raw
  dsimp only [Option.bind_eq_bind, Option.bind_some]
  by_cases h : 12 ≤ raw.length
  · have h2 : index raw 2 = some (raw.getD 2 0) := index_eq (by omega) 0
    rw [if_pos h, if_pos h, h2]
    simp (disch := (try simp only [List.length_set, List.length_mapIdx]); omega)
      [store_eq, fillRange_eq, fill]
  · rw [if_neg h, if_neg h]

/-- Two bytes copied are two bytes stored. -/
theorem copyRange_two {raw : Bytes} (h : 8 ≤ raw.length) (hi lo : UInt8) :
    copyRange raw 6 8 [hi, lo] = some ((raw.set 6 hi).set 7 lo) := by
  rw [copyRange_eq (by decide) h rfl, Option.some.injEq]
  refine List.ext_getElem? fun i => ?_
  rw [List.getElem?_mapIdx, List.getElem?_set, List.getElem?_set, List.length_set]
  by_cases h7 : 7 = i
  · subst h7
    simp [show 7 < raw.length by omega]
  · by_cases h6 : 6 = i
    · subst h6
      simp [show 6 < raw.length by omega]
    · have hout : ¬ (6 ≤ i ∧ i < 8) := by omega
      simp [h6, h7, hout]

theorem zeroIp_eq (query : Query) (ip : IpAddr) :
    zeroIp query ip = some (UpstreamResponse.zeroIp query ip) := by
  unfold zeroIp UpstreamResponse.zeroIp
  rw [question_eq, nxdomain_eq]
  generalize UpstreamResponse.question query = raw
  dsimp only [Option.bind_eq_bind, Option.bind_some]
  by_cases h : raw.length < 12
  · rw [if_pos h, if_pos h]
  · have h2 : index raw 2 = some (raw.getD 2 0) := index_eq (by omega) 0
    rw [if_neg h, if_neg h, h2]
    simp (disch := (try simp only [List.length_set, List.length_mapIdx]); omega)
      [store_eq, copyRange_two, fillRange_eq, fill, UpstreamResponse.u16BeBytes]

theorem blocked_eq (query : Query) (mode : BlockingMode) :
    blocked query mode = some (UpstreamResponse.blocked query mode) := by
  cases mode with
  | nxDomain => exact nxdomain_eq query
  | refused => exact refused_eq query
  | zeroIp =>
    rw [blocked, UpstreamResponse.blocked]
    cases RuntimeConfig.zeroIp query.queryType with
    | none => exact nxdomain_eq query
    | some ip => exact zeroIp_eq query ip

/-! ## TTLs -/

/-- `Parser::parse_ttl` (`parser.rs:104–110`). -/
def parseTtl (data : Bytes) (idx : Nat) : Option UInt32 :=
  match Parser.slice data (idx + 6) (idx + 6 + 4) with
  | some b => do
    let b0 ← index b 0
    let b1 ← index b 1
    let b2 ← index b 2
    let b3 ← index b 3
    some (UInt32.ofNat (((b0.toNat * 256 + b1.toNat) * 256 + b2.toNat) * 256 + b3.toNat))
  | none => some 0

/-- `u32::clamp`, which asserts `min <= max`. -/
def clamp (x lo hi : UInt32) : Option UInt32 :=
  if lo ≤ hi then some (RuntimeConfig.clamp x lo hi) else none

/-- `RuntimeConfig::clamp_ttl` (`config.rs:59–64`). -/
def clampTtl (config : RuntimeConfig) (ttl : UInt32) : Option UInt32 :=
  clamp ttl config.cacheMinTtl (max config.cacheMaxTtl config.cacheMinTtl)

/-- `cache_ttl` (`query.rs:172–184`). -/
def cacheTtl (config : RuntimeConfig) (raw : Bytes) (answerOffset : Nat) :
    Option (Option UInt32) :=
  match raw[3]? with
  | none => some none
  | some b => do
    let rcode := b &&& 0x0F
    let ancount ←
      if 8 ≤ raw.length then do
        some (Parser.u16FromBeBytes (← index raw 6) (← index raw 7))
      else some 0
    if rcode = 0 ∧ 0 < ancount then
      let ttl ← clampTtl config (← parseTtl raw answerOffset)
      some (some ttl)
    else if rcode = 0 ∨ rcode = 3 then
      let ttl ← clampTtl config config.negTtl
      some (some ttl)
    else some none

theorem parseTtl_eq (data : Bytes) (idx : Nat) :
    parseTtl data idx = some (Parser.parseTtl data idx) := by
  unfold parseTtl Parser.parseTtl
  cases hslice : Parser.slice data (idx + 6) (idx + 6 + 4) with
  | none => rfl
  | some b =>
    have hlength : b.length = 4 := by
      unfold Parser.slice at hslice
      split at hslice
      · next hrange =>
        obtain rfl := Option.some.inj hslice
        rw [List.length_take, List.length_drop]
        omega
      · cases hslice
    match b, hlength with
    | [_, _, _, _], _ => rfl

/-- **The bounds are never crossed**, whatever the configuration. -/
theorem clampTtl_eq (config : RuntimeConfig) (ttl : UInt32) :
    clampTtl config ttl = some (config.clampTtl ttl) := by
  refine if_pos ?_
  show config.cacheMinTtl ≤
    if config.cacheMaxTtl ≤ config.cacheMinTtl then config.cacheMinTtl else config.cacheMaxTtl
  split
  · exact UInt32.le_refl _
  · next hmax => exact (UInt32.le_total ..).resolve_right hmax

theorem cacheTtl_eq (config : RuntimeConfig) (raw : Bytes) (answerOffset : Nat) :
    cacheTtl config raw answerOffset = some (Denis.cacheTtl config raw answerOffset) := by
  unfold cacheTtl Denis.cacheTtl
  cases raw[3]? with
  | none => rfl
  | some b =>
    dsimp only
    by_cases h : 8 ≤ raw.length
    · rw [if_pos h, if_pos h, index_eq (i := 6) (by omega) 0, index_eq (i := 7) (by omega) 0]
      simp only [parseTtl_eq, clampTtl_eq, Option.bind_eq_bind, Option.bind_some, apply_ite some]
    · rw [if_neg h, if_neg h]
      simp only [parseTtl_eq, clampTtl_eq, Option.bind_eq_bind, Option.bind_some, apply_ite some]

/-! ## Exchanges -/

/-- The receive loop's test on a datagram in the buffer (`upstream.rs:220`). -/
def accepts (server : SocketAddr) (id0 id1 : UInt8) (src : SocketAddr) (buf : Bytes)
    (len : Nat) : Option Bool :=
  if src = server ∧ 2 ≤ len then do
    if (← index buf 0) = id0 then
      some (decide ((← index buf 1) = id1))
    else some false
  else some false

/-- The receive loop over the datagrams that arrive (`upstream.rs:219–229`);
without an acceptable one it runs into the timeout. -/
def receive (server : SocketAddr) (id0 id1 : UInt8) :
    Bytes → List (SocketAddr × Bytes) → Option (Option UpstreamResponse)
  | _, [] => some none
  | buf, (src, datagram) :: arrived => do
    let received := recvFrom buf datagram
    if ← accepts server id0 id1 src received.1 received.2 then
      let bytes ← sliceTo received.1 received.2
      some (some { code := rcodeFromRaw bytes, raw := bytes })
    else receive server id0 id1 received.1 arrived

/-- `exchange` (`upstream.rs:206–231`), of the datagrams that arrive in time. -/
def exchange (server : SocketAddr) (query : Query) (arrived : List (SocketAddr × Bytes)) :
    Option (Option UpstreamResponse) := do
  let id0 ← index query.raw 0
  let id1 ← index query.raw 1
  receive server id0 id1 (List.replicate upstreamRecvBuf 0) arrived

/-- A datagram is tested as it was sent, up to the size of the buffer. -/
theorem accepts_eq {buf : Bytes} (hbuf : buf.length = upstreamRecvBuf) (server src : SocketAddr)
    (query : Query) (datagram : Bytes) :
    accepts server (query.raw.getD 0 0) (query.raw.getD 1 0) src (recvFrom buf datagram).1
      (recvFrom buf datagram).2 = some (exchangeAccepts server query src datagram) := by
  have hlen : (recvFrom buf datagram).2 = (datagram.take upstreamRecvBuf).length := by
    rw [recvFrom, List.length_take, hbuf, Nat.min_comm]
  have hindex (i : Nat) (hi : i < (recvFrom buf datagram).2) :
      index (recvFrom buf datagram).1 i = some ((datagram.take upstreamRecvBuf).getD i 0) := by
    have hroom : i < (recvFrom buf datagram).1.length := by
      rw [recvFrom_length]
      exact Nat.lt_of_lt_of_le hi (Nat.min_le_right ..)
    rw [index_eq hroom 0, recvFrom_getD hi, hbuf]
  unfold accepts exchangeAccepts
  by_cases h : src = server ∧ 2 ≤ (recvFrom buf datagram).2
  · rw [if_pos h, hindex 0 (by omega), hindex 1 (by omega)]
    rw [hlen] at h
    dsimp only [Option.bind_eq_bind, Option.bind_some]
    generalize datagram.take upstreamRecvBuf = bytes at h
    by_cases h0 : bytes.getD 0 0 = query.raw.getD 0 0
    · rw [if_pos h0, decide_eq_true h.1, decide_eq_true h.2, beq_iff_eq.mpr h0]
      rfl
    · rw [if_neg h0, beq_eq_false_iff_ne.mpr h0, Bool.and_false, Bool.false_and]
  · rw [if_neg h]
    rw [hlen, Decidable.not_and_iff_or_not] at h
    dsimp only
    rcases h with h | h
    · rw [decide_eq_false h]
      rfl
    · rw [decide_eq_false h, Bool.and_false]
      rfl

/-- The response of the first datagram accepted. -/
def firstAccepted (server : SocketAddr) (query : Query) :
    List (SocketAddr × Bytes) → Option UpstreamResponse
  | [] => none
  | (src, datagram) :: arrived =>
    if exchangeAccepts server query src datagram then some (exchangeResponse datagram)
    else firstAccepted server query arrived

/-- **The receive loop** returns the first datagram accepted, whatever the buffer
held before. -/
theorem receive_eq (server : SocketAddr) (query : Query) {buf : Bytes}
    (hbuf : buf.length = upstreamRecvBuf) (arrived : List (SocketAddr × Bytes)) :
    receive server (query.raw.getD 0 0) (query.raw.getD 1 0) buf arrived =
      some (firstAccepted server query arrived) := by
  induction arrived generalizing buf with
  | nil => rfl
  | cons head arrived ih =>
    obtain ⟨src, datagram⟩ := head
    rw [receive, accepts_eq hbuf, firstAccepted]
    cases exchangeAccepts server query src datagram with
    | true =>
      have hroom : (recvFrom buf datagram).2 ≤ (recvFrom buf datagram).1.length := by
        rw [recvFrom_length]
        exact Nat.min_le_right ..
      rw [sliceTo_eq hroom, recvFrom_take, hbuf]
      rfl
    | false => exact ih (recvFrom_length.trans hbuf)

theorem exchange_eq (server : SocketAddr) {query : Query} (hraw : 2 ≤ query.raw.length)
    (arrived : List (SocketAddr × Bytes)) :
    exchange server query arrived = some (firstAccepted server query arrived) := by
  rw [exchange, index_eq (i := 0) (by omega) 0, index_eq (i := 1) (by omega) 0]
  exact receive_eq server query List.length_replicate arrived

end Checked

end Denis
