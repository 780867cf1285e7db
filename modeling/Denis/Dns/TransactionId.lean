import Denis.Dns.Server

/-!
# Transaction ids of replies

Every reply starts with the two bytes its client's message starts with. The
routes set them differently: synthesised replies keep the query's header,
cached bytes are patched if they have room for an id, relayed bytes were
matched on reception. The second needs an invariant of the cache: whatever is
stored has at least 4 bytes, since `cache_ttl` reads byte 3 (`cacheTtl_length`).

Over TCP the reply follows a 16-bit length. `Reply.message` reads the message
back from the bytes sent, so the lengths matter too: replies are short enough
for the prefix because parsed questions are (`Query.Bounded`).
-/

namespace Denis

open Text

/-- The DNS message a client reads from what it is sent: a datagram, or the
frame after its length prefix. -/
def Reply.message (r : Reply) : Option Bytes :=
  if r.client.listener.isTcp then
    match r.sent with
    | hi :: lo :: rest =>
      if rest.length = hi.toNat * 256 + lo.toNat then some rest else none
    | _ => none
  else some r.sent

/-- The bytes of the reply are what the client reads, as long as a length
prefix can hold them. -/
theorem Reply.message_eq {r : Reply} (h : r.raw.length < 65536) : r.message = some r.raw := by
  unfold Reply.message Reply.sent
  cases r.client.listener.isTcp with
  | false => rfl
  | true =>
    have hprefix : r.raw.length =
        (UInt8.ofNat (r.raw.length / 256)).toNat * 256 + (UInt8.ofNat r.raw.length).toNat := by
      rw [UInt8.toNat_ofNat', UInt8.toNat_ofNat']
      omega
    simp only [if_true, tcpFrame, UpstreamResponse.u16BeBytes, List.cons_append, List.nil_append]
    rw [if_pos hprefix]

/-- A reply that fits a frame and starts as its client's message does. -/
structure Reply.Matches (r : Reply) : Prop where
  packet : 2 ≤ r.packet.length
  raw : 2 ≤ r.raw.length
  high : r.raw.length ≤ upstreamRecvBuf
  id : r.raw.take 2 = r.packet.take 2

namespace Request

/-- The query's bytes start with the packet's id. -/
theorem take_two (req : Request) :
    2 ≤ req.packet.length ∧ req.query.raw.take 2 = req.packet.take 2 := by
  have hlong := req.bounded.raw
  rw [Parser.parseUdp_raw req.parsed] at hlong ⊢
  unfold Listener.buffer at hlong ⊢
  split at hlong
  · next htcp =>
    rw [if_pos htcp]
    exact ⟨by omega, rfl⟩
  · next hudp =>
    -- the receive buffer cuts behind the id
    rw [if_neg hudp, List.take_take]
    rw [List.length_take] at hlong
    exact ⟨by omega, rfl⟩

/-- A reply built from the query's own bytes matches. -/
theorem matches_answers (req : Request) {res : UpstreamResponse}
    (hres : UpstreamResponse.Answers req.query res) (event : Option DnsQueryEvent) (time : Nat) :
    Reply.Matches ⟨req.client, req.packet, res.raw, event, time⟩ := by
  obtain ⟨hpacket, hid⟩ := req.take_two
  have hlow := hres.low
  have hhigh := hres.high
  refine ⟨hpacket, ?_, ?_, ?_⟩
  · show 2 ≤ res.raw.length
    omega
  · show res.raw.length ≤ 4096
    omega
  · exact hres.id.trans hid

end Request

namespace Server

variable {display : RecordType → Str}

/-- **What transaction ids rest on**: cached bytes have room for an id and fit
a frame. -/
def HasRoom (cache : Cache) : Prop :=
  ∀ k x, cache.l1 k = some x →
    4 ≤ x.value.raw.length ∧ x.value.raw.length ≤ upstreamRecvBuf

theorem hasRoom_start (runtime : Runtime) (acl : Acl) (config : RuntimeConfig)
    (blockList allowList : DomainSet) :
    HasRoom (start runtime acl config blockList allowList).cache := by
  intro k x h
  cases h

theorem HasRoom.of_l1 {cache cache' : Cache} (hcache : HasRoom cache)
    (hl1 : cache'.l1 = cache.l1) : HasRoom cache' := by
  unfold HasRoom
  rwa [hl1]

/-- Storing bytes no longer than a receive buffer keeps the cache's bounds. -/
theorem HasRoom.store {cache : Cache} {config : RuntimeConfig} {now : Nat} {query : Query}
    {raw : Bytes} (hcache : HasRoom cache) (hraw : raw.length ≤ upstreamRecvBuf) :
    HasRoom (QueryHandler.store display cache config now query raw) := by
  intro k x h
  rcases QueryHandler.store_l1 h with ⟨ttl, httl, -, rfl⟩ | hold
  · exact ⟨QueryHandler.cacheTtl_length httl, hraw⟩
  · exact hcache k x hold

/-- The first phase of `handle_parsed` keeps the cache's bounds and serves a
matching reply. -/
theorem beginParsed_matches {cache cache' : Cache} (hroom : HasRoom cache) (req : Request)
    {config : RuntimeConfig} {clock : Clock} {served : Served}
    (h : QueryHandler.beginParsed display cache config req.query clock = some (cache', served)) :
    HasRoom cache' ∧
      ∀ event time, Reply.Matches ⟨req.client, req.packet, served.raw, event, time⟩ := by
  obtain ⟨hpacket, hid⟩ := req.take_two
  rcases QueryHandler.beginParsed_eq_some h with ⟨-, rfl, hraw, -, -⟩ |
      ⟨-, x, hx, -, rfl, hraw, -, -⟩
  · rw [hraw]
    exact ⟨hroom, req.matches_answers (UpstreamResponse.blocked_answers req.bounded _)⟩
  · -- an entry has room for an id, so the patch is made
    obtain ⟨hlow, hhigh⟩ := hroom _ x hx
    rw [hraw]
    refine ⟨hroom.store hhigh, fun event time => ⟨hpacket, ?_, ?_, ?_⟩⟩
    · rw [UpstreamResponse.cached_length]
      omega
    · rw [UpstreamResponse.cached_length]
      exact hhigh
    · exact (UpstreamResponse.cached_id req.bounded (by omega)).trans hid

/-- An accepted datagram starts with the id it was accepted for. -/
theorem exchangeResponse_matches (req : Request) {server src : SocketAddr} {bytes : Bytes}
    (h : exchangeAccepts server req.query src bytes = true) (event : Option DnsQueryEvent)
    (time : Nat) :
    Reply.Matches ⟨req.client, req.packet, (exchangeResponse bytes).raw, event, time⟩ := by
  obtain ⟨hpacket, hid⟩ := req.take_two
  have hraw := req.bounded.raw
  have hlen : (bytes.take upstreamRecvBuf).length ≤ upstreamRecvBuf := List.length_take_le ..
  simp only [exchangeAccepts, Bool.and_eq_true, decide_eq_true_eq, beq_iff_eq] at h
  obtain ⟨⟨⟨-, hlong⟩, h0⟩, h1⟩ := h
  refine ⟨hpacket, hlong, hlen, ?_⟩
  rw [← hid]
  show (bytes.take upstreamRecvBuf).take 2 = _
  generalize bytes.take upstreamRecvBuf = buf at hlong h0 h1
  generalize req.query.raw = raw at hraw h0 h1
  match buf, raw, hlong, hraw with
  | a :: b :: _, c :: d :: _, _, _ =>
    simp only [List.getD_cons_zero, List.getD_cons_succ] at h0 h1
    rw [h0, h1]
    rfl

/-- **Step lemma**: the invariant is kept and every reply of the step matches. -/
theorem step_matches {s s' : Server} {e : Input} {out : List Output} (hroom : HasRoom s.cache)
    (h : s.step display e = some (s', out)) :
    HasRoom s'.cache ∧ ∀ o ∈ out, ∀ r, o = .reply r → r.Matches := by
  cases step_transition h with
  | idle _ _ hl1 => exact ⟨hroom.of_l1 hl1, by simp⟩
  | unserved _ _ _ _ hcache => exact ⟨hcache ▸ hroom, by simp⟩
  | refused _ _ _ hcache =>
    refine ⟨hcache ▸ hroom, ?_⟩
    rintro o ho r rfl
    obtain rfl := Output.reply.inj (List.mem_singleton.mp ho)
    exact Request.matches_answers _ (UpstreamResponse.blocked_answers (Request.bounded _) .refused)
      none _
  | hot _ _ hbegin _ hcache _ =>
    refine ⟨hcache ▸ hroom, ?_⟩
    rintro o ho r rfl
    obtain rfl := Output.reply.inj (List.mem_singleton.mp ho)
    exact (beginParsed_matches hroom _ hbegin).2 _ _
  | hotMiss _ _ _ hcache => exact ⟨hcache ▸ hroom, by simp⟩
  | handled _ hbegin _ hcache _ =>
    obtain ⟨hkeep, hreply⟩ := beginParsed_matches hroom _ hbegin
    refine ⟨hcache ▸ hkeep, ?_⟩
    rintro o ho r rfl
    obtain rfl := Output.reply.inj (List.mem_singleton.mp ho)
    exact hreply _ _
  | forwarded _ _ _ _ hcache => exact ⟨hcache ▸ hroom, by simp⟩
  | relayed _ _ haccept _ hcache _ =>
    refine ⟨hcache ▸ hroom.store (List.length_take_le ..), ?_⟩
    rintro o ho r rfl
    rcases List.mem_cons.mp ho with ho | ho
    · cases ho
    · obtain rfl := Output.reply.inj (List.mem_singleton.mp ho)
      exact exchangeResponse_matches _ haccept _ _

/-- **Run lemma**: a run leaves the cache within its bounds, and all its replies
match. -/
theorem run_matches {runtime : Runtime} {acl : Acl} {config : RuntimeConfig}
    {blockList allowList : DomainSet} {es : List Input} {t : Server} {outs : List Output}
    (hrun : (machine display).run (start runtime acl config blockList allowList) es =
      some (t, outs)) : HasRoom t.cache ∧ ∀ r, .reply r ∈ outs → r.Matches := by
  obtain ⟨hroom, hall⟩ := Machine.run_outputs (M := machine display)
    (P := fun o => ∀ r, o = .reply r → r.Matches)
    (J := fun s => HasRoom s.cache) (fun _ _ _ _ hs h => step_matches hs h)
    (hasRoom_start _ _ _ _ _) hrun
  exact ⟨hroom, fun r hr => hall _ hr r rfl⟩

/-- **Every reply carries its own client's transaction id.** In any run, what
the client reads from each reply has at least 2 bytes and starts with the first
two bytes of the message it answers. -/
theorem replies_carry_transaction_id {runtime : Runtime} {acl : Acl} {config : RuntimeConfig}
    {blockList allowList : DomainSet} {es : List Input} {t : Server} {outs : List Output}
    (hrun : (machine display).run (start runtime acl config blockList allowList) es =
      some (t, outs)) {r : Reply} (hr : .reply r ∈ outs) :
    ∃ msg, r.message = some msg ∧ 2 ≤ msg.length ∧ 2 ≤ r.packet.length ∧
      msg.take 2 = r.packet.take 2 := by
  obtain ⟨hpacket, hraw, hhigh, hid⟩ := (run_matches hrun).2 r hr
  rw [upstreamRecvBuf] at hhigh
  exact ⟨r.raw, Reply.message_eq (by omega), hraw, hpacket, hid⟩

/-- A second client's hit on the first client's answer, over TCP. -/
theorem hit_carries_own_id : ∃ msg,
    (Sample.reply (Sample.client .serverTcp 2) 9 1 true).message = some msg ∧ 2 ≤ msg.length ∧
      2 ≤ (Sample.packet 9 Sample.name).length ∧
      msg.take 2 = (Sample.packet 9 Sample.name).take 2 := by
  obtain ⟨⟨t, outs⟩, hrun, hmem⟩ := Option.map_eq_some_iff.mp
    (show ((machine Sample.display).run (start .tokio ⟨[]⟩ Sample.config ∅ ∅)
      [Sample.ask (Sample.client .tokioUdp 1) 7 0, Sample.answered 7 0,
        Sample.ask (Sample.client .serverTcp 2) 9 1]).map (fun p =>
          decide (.reply (Sample.reply (Sample.client .serverTcp 2) 9 1 true) ∈ p.2)) = some true
      by decide +kernel)
  exact replies_carry_transaction_id hrun (of_decide_eq_true hmem)

end Server

end Denis
