import Denis.Handler.Parser

/-!
# Replies and upstream exchanges (`handler/upstream.rs`)

- `UpstreamResponse.blocked` and its three forms copy the question out of the
  query (`raw[..answer_offset]`) and rewrite header bytes.
- `UpstreamResponse.cached` patches the client's transaction id over cached
  bytes when both have one.
- `exchangeAccepts` is the acceptance test of the receive loop in `exchange`:
  a datagram is taken as the answer by source address and transaction id alone.
  The pool of sockets around it is modelled in `Denis.Handler.Pool`.
-/

namespace Denis

open Text

/-- `UpstreamResponse` (`upstream.rs:20–23`). -/
structure UpstreamResponse where
  code : ResponseCode
  raw : Bytes
  deriving DecidableEq

/-- `UpstreamError` (`upstream.rs:130–135`). -/
inductive UpstreamError
  | upstream (message : String)
  | timeout
  deriving DecidableEq

/-- `rcode_from_raw` (`upstream.rs:234–245`). -/
def rcodeFromRaw (raw : Bytes) : ResponseCode :=
  match raw[3]? with
  | none => .servFail
  | some b =>
    let n := b &&& 0x0F
    if n = 0 then .noError
    else if n = 2 then .servFail
    else if n = 3 then .nxDomain
    else if n = 5 then .refused
    else .unknown (UInt16.ofNat n.toNat)

/-- `raw[lo..hi].fill(v)`. -/
def fill (raw : Bytes) (lo hi : Nat) (v : UInt8) : Bytes :=
  raw.mapIdx fun i b => if lo ≤ i ∧ i < hi then v else b

namespace UpstreamResponse

/-- `UpstreamResponse::cached` (`upstream.rs:35–45`). -/
def cached (query : Query) (raw : Bytes) : UpstreamResponse :=
  let raw :=
    if 2 ≤ raw.length ∧ 2 ≤ query.raw.length then
      (raw.set 0 (query.raw.getD 0 0)).set 1 (query.raw.getD 1 0)
    else raw
  { code := rcodeFromRaw raw, raw }

/-- The header and question of the query: `raw[..answer_offset.min(len)]`. -/
def question (query : Query) : Bytes :=
  query.raw.take (min query.answerOffset query.raw.length)

/-- `UpstreamResponse::nxdomain` (`upstream.rs:57–77`). -/
def nxdomain (query : Query) : UpstreamResponse :=
  let raw := question query
  let raw :=
    if 12 ≤ raw.length then
      let rd := raw.getD 2 0 &&& 0x01
      (((((((raw.set 2 (0x84 ||| rd)).set 3 0x83).set 6 0).set 7 0).set 8 0).set 9 0).set
        10 0).set 11 0
    else raw
  { code := .nxDomain, raw }

/-- `UpstreamResponse::refused` (`upstream.rs:79–94`). -/
def refused (query : Query) : UpstreamResponse :=
  let raw := question query
  let raw :=
    if 12 ≤ raw.length then
      let rd := raw.getD 2 0 &&& 0x01
      fill ((raw.set 2 (0x80 ||| rd)).set 3 0x05) 6 12 0
    else raw
  { code := .refused, raw }

/-- `u16::to_be_bytes`. -/
def u16BeBytes (n : Nat) : Bytes := [UInt8.ofNat (n / 256), UInt8.ofNat n]

/-- Type code and data of the one answer: an A or an AAAA record. -/
def zeroIpRecord : IpAddr → Nat × Bytes
  | .v4 octets => (1, octets.toList)
  | .v6 octets => (28, octets.toList)

/-- `UpstreamResponse::zero_ip` (`upstream.rs:96–126`). -/
def zeroIp (query : Query) (ip : IpAddr) : UpstreamResponse :=
  let raw := question query
  if raw.length < 12 then nxdomain query
  else
    let rd := raw.getD 2 0 &&& 0x01
    let raw := (raw.set 2 (0x84 ||| rd)).set 3 0x80
    let raw := (raw.set 6 0).set 7 1
    let raw := fill raw 8 12 0
    let (rtype, rdata) := zeroIpRecord ip
    { code := .noError
      raw := raw ++ [0xC0, 0x0C] ++ u16BeBytes rtype ++ u16BeBytes 1 ++ [0, 0, 0, 60] ++
        u16BeBytes rdata.length ++ rdata }

/-- `UpstreamResponse::blocked` (`upstream.rs:46–55`). -/
def blocked (query : Query) (mode : BlockingMode) : UpstreamResponse :=
  match mode with
  | .nxDomain => nxdomain query
  | .refused => refused query
  | .zeroIp =>
    match RuntimeConfig.zeroIp query.queryType with
    | some ip => zeroIp query ip
    | none => nxdomain query

end UpstreamResponse

/-- `RECV_BUF` of the upstream sockets (`upstream.rs:17`): longer datagrams are cut. -/
def upstreamRecvBuf : Nat := 4096

/-- The receive loop's test in `exchange` (`upstream.rs:219–223`): the datagram
comes from the server asked and starts with the query's transaction id. -/
def exchangeAccepts (server : SocketAddr) (query : Query) (src : SocketAddr)
    (datagram : Bytes) : Bool :=
  let buf := datagram.take upstreamRecvBuf
  decide (src = server) && decide (2 ≤ buf.length) &&
    (buf.getD 0 0 == query.raw.getD 0 0) && (buf.getD 1 0 == query.raw.getD 1 0)

/-- What `exchange` returns for an accepted datagram (`upstream.rs:227–229`). -/
def exchangeResponse (datagram : Bytes) : UpstreamResponse :=
  let bytes := datagram.take upstreamRecvBuf
  { code := rcodeFromRaw bytes, raw := bytes }

/-! ## What the replies keep of the query -/

/-- The code's number is the RCODE nibble of the bytes it was read from. -/
theorem rcodeFromRaw_toU16 {raw : Bytes} (h : 4 ≤ raw.length) :
    (rcodeFromRaw raw).toU16 = UInt16.ofNat ((raw.getD 3 0) &&& 0x0F).toNat := by
  obtain ⟨b, hb⟩ : ∃ b, raw[3]? = some b := ⟨raw[3], List.getElem?_eq_getElem (by omega)⟩
  rw [rcodeFromRaw, List.getD_eq_getElem?_getD, hb, Option.getD_some]
  dsimp only
  generalize b &&& 0x0F = n
  split
  · next h0 => subst h0; rfl
  · split
    · next h2 => subst h2; rfl
    · split
      · next h3 => subst h3; rfl
      · split
        · next h5 => subst h5; rfl
        · rfl

/-- The code depends on byte 3 only. -/
theorem rcodeFromRaw_byte {raw : Bytes} {b : UInt8} (h : raw[3]? = some b) :
    rcodeFromRaw raw = rcodeFromRaw [0, 0, 0, b] := by
  rw [rcodeFromRaw, h]
  rfl

@[simp] theorem fill_length (raw : Bytes) (lo hi : Nat) (v : UInt8) :
    (fill raw lo hi v).length = raw.length :=
  List.length_mapIdx

/-- Filling from `lo` on keeps what is before. -/
theorem fill_take (raw : Bytes) {lo n : Nat} (hn : n ≤ lo) (hi : Nat) (v : UInt8) :
    (fill raw lo hi v).take n = raw.take n := by
  refine List.ext_getElem? ?_
  intro i
  rw [List.getElem?_take, List.getElem?_take]
  split
  · next hi' =>
    have hnot : ¬ (lo ≤ i ∧ i < hi) := by omega
    rw [fill, List.getElem?_mapIdx]
    simp [hnot]
  · rfl

/-- Filling from `lo` on keeps each byte before. -/
theorem fill_getElem? (raw : Bytes) {lo hi i : Nat} (hi' : i < lo) (v : UInt8) :
    (fill raw lo hi v)[i]? = raw[i]? := by
  have hnot : ¬ (lo ≤ i ∧ i < hi) := by omega
  rw [fill, List.getElem?_mapIdx]
  simp [hnot]

/-- Filling reaches no further than it says. -/
theorem fill_append (xs ys : Bytes) {lo hi : Nat} (hhi : hi ≤ xs.length) (v : UInt8) :
    fill (xs ++ ys) lo hi v = fill xs lo hi v ++ ys := by
  rw [fill, List.mapIdx_append, fill, List.append_cancel_left_eq]
  refine List.ext_getElem? fun i => ?_
  have hkeep : ¬ (lo ≤ i + xs.length ∧ i + xs.length < hi) := by omega
  rw [List.getElem?_mapIdx]
  simp [hkeep]

/-- Filling keeps what is behind. -/
theorem fill_drop (raw : Bytes) (lo : Nat) {hi n : Nat} (hn : hi ≤ n) (v : UInt8) :
    (fill raw lo hi v).drop n = raw.drop n := by
  refine List.ext_getElem? fun i => ?_
  have hkeep : ¬ (lo ≤ n + i ∧ n + i < hi) := by omega
  rw [List.getElem?_drop, List.getElem?_drop, fill, List.getElem?_mapIdx]
  simp [hkeep]

namespace UpstreamResponse

variable {query : Query}

theorem question_length (query : Query) :
    (question query).length = min query.answerOffset query.raw.length := by
  rw [question, List.length_take]
  omega

/-- The question of a parsed query goes past the header, and fits a datagram. -/
theorem question_bounds (hq : query.Bounded) :
    15 ≤ (question query).length ∧ (question query).length ≤ 273 := by
  have hlow := hq.low
  have hhigh := hq.high
  have hraw := hq.raw
  rw [question_length]
  omega

theorem question_take_two (hq : query.Bounded) : (question query).take 2 = query.raw.take 2 := by
  have hlow := hq.low
  have hraw := hq.raw
  rw [question, List.take_take, Nat.min_eq_left (by omega)]

/-- A reply built for a query: the query's transaction id, a length that fits
a frame, and a code that is the RCODE of its bytes. -/
structure Answers (query : Query) (res : UpstreamResponse) : Prop where
  id : res.raw.take 2 = query.raw.take 2
  low : 15 ≤ res.raw.length
  high : res.raw.length ≤ 301
  code : rcodeFromRaw res.raw = res.code

theorem nxdomain_answers (hq : query.Bounded) : Answers query (nxdomain query) := by
  obtain ⟨hlow, hhigh⟩ := question_bounds hq
  have h12 : 12 ≤ (question query).length := by omega
  have h3 : 3 < (question query).length := by omega
  rw [nxdomain, if_pos h12]
  refine ⟨?_, ?_, ?_, ?_⟩
  · rw [← question_take_two hq]
    simp [List.take_set_of_le]
  · simp
    omega
  · simp
    omega
  · exact rcodeFromRaw_byte (b := 0x83) (by simp [h3])

theorem refused_answers (hq : query.Bounded) : Answers query (refused query) := by
  obtain ⟨hlow, hhigh⟩ := question_bounds hq
  have h12 : 12 ≤ (question query).length := by omega
  have h3 : 3 < (question query).length := by omega
  rw [refused, if_pos h12]
  refine ⟨?_, ?_, ?_, ?_⟩
  · rw [fill_take _ (by decide), ← question_take_two hq]
    simp [List.take_set_of_le]
  · simp
    omega
  · simp
    omega
  · exact rcodeFromRaw_byte (b := 0x05) (by rw [fill_getElem? _ (by decide)]; simp [h3])

theorem zeroIpRecord_length (ip : IpAddr) : (zeroIpRecord ip).2.length ≤ 16 := by
  cases ip <;> simp [zeroIpRecord]

theorem zeroIp_answers (hq : query.Bounded) (ip : IpAddr) : Answers query (zeroIp query ip) := by
  -- as above, with one record appended
  obtain ⟨hlow, hhigh⟩ := question_bounds hq
  have hrecord := zeroIpRecord_length ip
  have h12 : ¬ (question query).length < 12 := by omega
  have h3 : 3 < (question query).length := by omega
  rw [zeroIp, if_neg h12]
  refine ⟨?_, ?_, ?_, ?_⟩
  · rw [← question_take_two hq]
    simp only [List.append_assoc]
    rw [List.take_append_of_le_length (by simp; omega), fill_take _ (by decide)]
    simp [List.take_set_of_le]
  · simp [u16BeBytes]
    omega
  · simp [u16BeBytes]
    omega
  · refine rcodeFromRaw_byte (b := 0x80) ?_
    simp only [List.append_assoc]
    rw [List.getElem?_append_left (by simp; omega), fill_getElem? _ (by decide)]
    simp [h3]

/-- **Blocked replies**, in every blocking mode. -/
theorem blocked_answers (hq : query.Bounded) (mode : BlockingMode) :
    Answers query (blocked query mode) := by
  cases mode with
  | nxDomain => exact nxdomain_answers hq
  | refused => exact refused_answers hq
  | zeroIp =>
    rw [blocked]
    split
    · next ip _ => exact zeroIp_answers hq ip
    · exact nxdomain_answers hq

/-- **Blocked replies go on like the query**, from its header on to where the question
ends. -/
theorem blocked_question (hq : query.Bounded) (mode : BlockingMode) :
    (question query).drop Parser.header <+: (blocked query mode).raw.drop Parser.header := by
  have hnxdomain : (question query).drop Parser.header <+:
      (nxdomain query).raw.drop Parser.header := by
    rw [nxdomain]
    dsimp only
    split
    · simp [List.drop_set, Parser.header]
    · exact List.prefix_refl _
  cases mode with
  | nxDomain => exact hnxdomain
  | refused =>
    show _ <+: (refused query).raw.drop _
    rw [refused]
    dsimp only
    split
    · rw [fill_drop _ _ (by decide)]
      simp [List.drop_set, Parser.header]
    · exact List.prefix_refl _
  | zeroIp =>
    rw [blocked]
    split
    · next ip _ =>
      have hlow := (question_bounds hq).1
      have h12 : ¬ (question query).length < 12 := by omega
      rw [zeroIp, if_neg h12]
      simp only [List.append_assoc]
      rw [List.drop_append_of_le_length (by simp [Parser.header]; omega), fill_drop _ _ (by decide)]
      simp [List.drop_set, Parser.header]
    · exact hnxdomain

/-- Only the refused mode answers REFUSED. -/
theorem blocked_refused_iff (hq : query.Bounded) (mode : BlockingMode) :
    (blocked query mode).code = .refused ↔ mode = .refused := by
  cases mode with
  | nxDomain => simp [blocked, nxdomain]
  | refused => simp [blocked, refused]
  | zeroIp =>
    have hlow := (question_bounds hq).1
    have h12 : ¬ (question query).length < 12 := by omega
    rw [blocked]
    split
    · simp [zeroIp, h12]
    · simp [nxdomain]

/-- Cached bytes that have room for a transaction id get the query's. -/
theorem cached_id (hq : query.Bounded) {raw : Bytes} (hraw : 2 ≤ raw.length) :
    (cached query raw).raw.take 2 = query.raw.take 2 := by
  have hquery := hq.raw
  rw [cached, if_pos ⟨hraw, by omega⟩]
  match raw, query.raw, hraw, hquery with
  | a :: b :: _, c :: d :: _, _, _ => rfl

@[simp] theorem cached_length (query : Query) (raw : Bytes) :
    (cached query raw).raw.length = raw.length := by
  unfold cached
  dsimp only
  split <;> simp

/-- Only the transaction id of cached bytes is changed. -/
theorem cached_drop (query : Query) (raw : Bytes) :
    (cached query raw).raw.drop 2 = raw.drop 2 := by
  unfold cached
  dsimp only
  split
  · simp [List.drop_set]
  · rfl

/-- So the RCODE is that of the cached bytes. -/
theorem cached_rcode (query : Query) (raw : Bytes) :
    rcodeFromRaw (cached query raw).raw = rcodeFromRaw raw := by
  have h3 : (cached query raw).raw[3]? = raw[3]? := by
    have hdrop := congrArg (·[1]?) (cached_drop query raw)
    simpa using hdrop
  rw [rcodeFromRaw, rcodeFromRaw, h3]

end UpstreamResponse

end Denis
