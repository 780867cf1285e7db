import Denis.Dns.Server
import Denis.Handler.Scan

/-!
# Blocklist enforcement on the wire

A packet's first name, decoded as RFC 1035 has it, is blocklisted if a label
suffix of it is a blocked domain and none is an allowed one. Enforcing the list
means that such a packet is answered with the synthesised reply, or dropped, on
both serving paths; that is so exactly if every query parsed from it is blocked
(`Worker.enforced_iff`, `QueryHandler.enforced_iff`).

The scanner's idea of the name differs from the decoded one where a label starts
with a zero byte: it stops there, and what it returns is covered by no list of
valid domains. And where a label holds a dot byte, the allow list may match
inside the label. `enforced_iff` says these are the only ways a blocklisted
packet gets through.
-/

namespace Denis

open Text DomainName

/-- The decoded name is blocked: a label suffix of it is on the block list, and
none is on the allow list. -/
structure Blocklisted (block allow : DomainSet) (labels : List Label) : Prop where
  blocked : ∃ d ∈ block, ∃ ms, ms ≠ [] ∧ ms <:+ labels ∧ dotted ms = utf8 d
  unallowed : ∀ a ∈ allow, ∀ ms, ms ≠ [] → ms <:+ labels → dotted ms ≠ utf8 a

/-- The packets on which a blocklisted name is blocked: the scanner rejects
them, or it sees all labels, and no allowed domain follows a dot byte. -/
def Enforceable (allow : DomainSet) (packet : Bytes) (labels : List Label) : Prop :=
  Parser.Rejects packet labels ∨
    (Parser.visible labels = labels ∧
      ∀ a ∈ allow, utf8 a ≠ dotted labels ∧ utf8 a ∉ suffixesAfter 46 (dotted labels))

/-- Every query parsed from the packet is blocked. -/
def BlockedIfParsed (cache : Cache) (packet : Bytes) : Prop :=
  ∀ query, Parser.parseUdp packet = .ok query → cache.isBlocked query.name = true

section Names

variable {set : DomainSet} {labels : List Label}

/-- Valid domains over decoded text, read off its bytes. -/
theorem covers_valid (hset : ∀ d ∈ set, Repo.isValidDomain d = true) (bs : Bytes) :
    Repo.Covers set (fromUtf8Lossy bs) ↔ ∃ d ∈ set, utf8 d = bs ∨ utf8 d ∈ suffixesAfter 46 bs :=
  Repo.covers_lossy (fun d hd => (Repo.validDomain_of_isValidDomain (hset d hd)).ascii) bs

/-- A label suffix on the list is covered by it. -/
theorem covers_of_suffix (hset : ∀ d ∈ set, Repo.isValidDomain d = true)
    (h : ∃ d ∈ set, ∃ ms, ms ≠ [] ∧ ms <:+ labels ∧ dotted ms = utf8 d) :
    Repo.Covers set (fromUtf8Lossy (dotted labels)) := by
  rw [covers_valid hset]
  obtain ⟨d, hd, ms, hms, ⟨pre, rfl⟩, heq⟩ := h
  refine ⟨d, hd, ?_⟩
  by_cases hpre : pre = []
  · subst hpre
    exact .inl heq.symm
  · rw [dotted_append hpre hms, heq]
    exact .inr (mem_suffixesAfter.mpr ⟨_, rfl⟩)

/-- Valid domains never cover labels that are each followed by a dot. -/
theorem not_covers_dots (hset : ∀ d ∈ set, Repo.isValidDomain d = true) (ls : List Label) :
    ¬ Repo.Covers set (fromUtf8Lossy (Parser.dots ls)) := by
  rw [covers_valid hset]
  have hend : ∀ b, (Parser.dots ls).getLast? = some b → b = 46 := by
    intro b hb
    rcases List.eq_nil_or_concat ls with rfl | ⟨ms, l, rfl⟩
    · cases hb
    · simp [Parser.dots] at hb
      exact hb.symm
  rintro ⟨d, hd, heq | hsuffix⟩
  · obtain ⟨b, hb, hne⟩ := (Repo.validDomain_of_isValidDomain (hset d hd)).getLast?_ne_dot
    exact hne (hend b (heq ▸ hb))
  · obtain ⟨b, hb, hne⟩ := (Repo.validDomain_of_isValidDomain (hset d hd)).getLast?_ne_dot
    obtain ⟨w, hw⟩ := mem_suffixesAfter.mp hsuffix
    refine hne (hend b ?_)
    rw [hw, List.getLast?_append, List.getLast?_cons, hb]
    rfl

end Names

/-- **Which blocklisted packets are blocked**: the enforceable ones. -/
theorem blockedIfParsed_iff {cache : Cache} {packet rest : Bytes} {labels : List Label}
    (hblock : ∀ d ∈ cache.blockList, Repo.isValidDomain d = true)
    (hallow : ∀ a ∈ cache.allowList, Repo.isValidDomain a = true)
    (hdecode : decode (packet.drop Parser.header) = some (labels, rest))
    (hlisted : Blocklisted cache.blockList cache.allowList labels) :
    BlockedIfParsed cache packet ↔ Enforceable cache.allowList packet labels := by
  by_cases hrejects : Parser.Rejects packet labels
  · have hnone := (Parser.parseUdp_decoded_error hdecode).mpr hrejects
    exact ⟨fun _ => .inl hrejects, fun _ query hok => absurd hok (hnone query)⟩
  · have hparsed : ∃ query, Parser.parseUdp packet = .ok query := by
      by_contra hnone
      exact hrejects ((Parser.parseUdp_decoded_error hdecode).mp
        fun query hok => hnone ⟨query, hok⟩)
    have hname : BlockedIfParsed cache packet ↔
        Repo.Covers cache.blockList (fromUtf8Lossy (Parser.scannedName labels)) ∧
          ¬ Repo.Covers cache.allowList (fromUtf8Lossy (Parser.scannedName labels)) := by
      rw [← Repo.decide_iff]
      constructor
      · intro hall
        obtain ⟨query, hok⟩ := hparsed
        rw [← Parser.parseUdp_decoded_name hdecode hok]
        exact hall query hok
      · intro hdecide query hok
        rw [Cache.isBlocked, Parser.parseUdp_decoded_name hdecode hok]
        exact hdecide
    rw [hname, Enforceable, or_iff_right hrejects, Parser.scannedName]
    by_cases hvisible : Parser.visible labels = labels
    · rw [if_pos hvisible, covers_valid hallow]
      constructor
      · rintro ⟨-, huncovered⟩
        exact ⟨hvisible, fun a ha =>
          ⟨fun heq => huncovered ⟨a, ha, .inl heq⟩, fun hs => huncovered ⟨a, ha, .inr hs⟩⟩⟩
      · rintro ⟨-, hfree⟩
        refine ⟨covers_of_suffix hblock hlisted.blocked, ?_⟩
        rintro ⟨a, ha, heq | hs⟩
        · exact (hfree a ha).1 heq
        · exact (hfree a ha).2 hs
    · -- the scanner stopped inside a label: the name it made ends in a dot
      rw [if_neg hvisible]
      exact ⟨fun h => absurd h.1 (not_covers_dots hblock _), fun h => absurd h.1 hvisible⟩

namespace Worker

variable (display : RecordType → Str)

/-- The hot path drops the packet, or sends the synthesised reply and the event
of a blocked query. -/
def Enforced (cache : Cache) (config : RuntimeConfig) (packet : Bytes) (clock : Clock) : Prop :=
  classify display cache config packet clock = (.drop, []) ∨
  ∃ query event, Parser.parseUdp packet = .ok query ∧
    classify display cache config packet clock =
      (.reply (UpstreamResponse.blocked query config.blockingMode).raw, [event]) ∧
    event.blocked = true ∧ event.cacheHit = false

variable {display} {cache : Cache} {config : RuntimeConfig} {packet : Bytes} {clock : Clock}

theorem enforced_iff :
    Enforced display cache config packet clock ↔ BlockedIfParsed cache packet := by
  unfold Enforced BlockedIfParsed
  cases hparse : Parser.parseUdp packet with
  | error e =>
    rw [classify, hparse]
    simp
  | ok query =>
    by_cases hblocked : cache.isBlocked query.name
    · rw [classify, hparse]
      simp [hblocked]
    · have hopen : cache.isBlocked query.name = false := Bool.eq_false_iff.mpr hblocked
      cases hget : cache.l1Get display clock.now query with
      | none =>
        rw [classify, hparse]
        simp [hopen, hget]
      | some cached =>
        rw [classify, hparse]
        simp [hopen, hget]

end Worker

namespace QueryHandler

variable (display : RecordType → Str)

/-- The handler makes no upstream call, and fails to parse or returns the
synthesised reply with the event of a blocked query. -/
def Enforced (upstream : Query → Except UpstreamError UpstreamResponse) (cache : Cache)
    (config : RuntimeConfig) (packet : Bytes) (clock : Clock) : Prop :=
  let handled := handle display upstream cache config packet clock
  handled.resolved = [] ∧
    ((∃ e, handled.result = .error (.parser e) ∧ handled.events = []) ∨
    ∃ query event, Parser.parseUdp packet = .ok query ∧
      handled.result = .ok (UpstreamResponse.blocked query config.blockingMode).raw ∧
      handled.events = [event] ∧ event.blocked = true ∧ event.cacheHit = false)

variable {display} {upstream : Query → Except UpstreamError UpstreamResponse} {cache : Cache}
  {config : RuntimeConfig} {packet : Bytes} {clock : Clock}

theorem enforced_iff :
    Enforced display upstream cache config packet clock ↔ BlockedIfParsed cache packet := by
  unfold Enforced BlockedIfParsed
  cases hparse : Parser.parseUdp packet with
  | error e =>
    simp only [handle, hparse]
    simp
  | ok query =>
    simp only [handle, hparse, handleParsed, beginParsed_eq]
    by_cases hblocked : cache.isBlocked query.name
    · simp [hblocked, event]
    · have hopen : cache.isBlocked query.name = false := Bool.eq_false_iff.mpr hblocked
      cases hget : cache.l1Get display clock.now query with
      | none => cases upstream query <;> simp [hopen]
      | some cached => simp [hopen, event]

end QueryHandler

/-- **Blocklist enforcement.** On a packet whose decoded name is blocklisted,
neither serving path forwards or answers from the cache iff the packet is
enforceable. -/
theorem enforced_iff_enforceable {display : RecordType → Str} {cache : Cache}
    {packet rest : Bytes} {labels : List Label}
    (hblock : ∀ d ∈ cache.blockList, Repo.isValidDomain d = true)
    (hallow : ∀ a ∈ cache.allowList, Repo.isValidDomain a = true)
    (hdecode : decode (packet.drop Parser.header) = some (labels, rest))
    (hlisted : Blocklisted cache.blockList cache.allowList labels)
    (upstream : Query → Except UpstreamError UpstreamResponse) (config : RuntimeConfig)
    (clock : Clock) :
    (Worker.Enforced display cache config packet clock ∧
      QueryHandler.Enforced display upstream cache config packet clock) ↔
      Enforceable cache.allowList packet labels := by
  rw [Worker.enforced_iff, QueryHandler.enforced_iff, and_self,
    blockedIfParsed_iff hblock hallow hdecode hlisted]

/-- A cache with `ab.cd` blocked. -/
def Sample.blocking : Cache := ⟨TtlMap.empty, ∅, {['a', 'b', '.', 'c', 'd']}⟩

/-- The labels `ab` and `cd`. -/
def Sample.labels : List Label :=
  [⟨[97, 98], by decide, by decide⟩, ⟨[99, 100], by decide, by decide⟩]

/-- A blocked name as it is usually written on the wire. -/
theorem plain_name_enforced :
    Worker.Enforced Sample.display Sample.blocking Sample.config (Sample.packet 7 Sample.name)
      (Sample.clock 0) ∧
    QueryHandler.Enforced Sample.display (fun _ => .error .timeout) Sample.blocking Sample.config
      (Sample.packet 7 Sample.name) (Sample.clock 0) := by
  have hdecode : decode ((Sample.packet 7 Sample.name).drop Parser.header) =
      some (Sample.labels, [0, 1, 0, 1]) := decode_eq_some.mpr rfl
  have hlisted : Blocklisted Sample.blocking.blockList Sample.blocking.allowList Sample.labels :=
    ⟨⟨_, Finset.mem_singleton_self _, Sample.labels, by decide, List.suffix_refl _, by decide⟩,
      by simp [Sample.blocking]⟩
  refine (enforced_iff_enforceable (by decide +kernel) (by decide) hdecode hlisted _ _ _).mpr ?_
  exact .inr ⟨by decide, by simp [Sample.blocking]⟩

/-- **A label that starts with a zero byte bypasses the block list**: a label of
one zero byte before the blocked `ab.cd` makes a subdomain of it, and the
scanner reads the empty name. -/
theorem zero_led_label_bypasses : ∃ (packet rest : Bytes) (labels : List Label),
    (∀ d ∈ Sample.blocking.blockList, Repo.isValidDomain d = true) ∧
    decode (packet.drop Parser.header) = some (labels, rest) ∧
    Blocklisted Sample.blocking.blockList Sample.blocking.allowList labels ∧
    ¬ Worker.Enforced Sample.display Sample.blocking Sample.config packet (Sample.clock 0) ∧
    ¬ QueryHandler.Enforced Sample.display (fun _ => .error .timeout) Sample.blocking
      Sample.config packet (Sample.clock 0) := by
  let packet := Sample.packet 7 ([1, 0] ++ Sample.name)
  have hparse : Parser.parseUdp packet = .ok ⟨[], ⟨609⟩, packet, 18⟩ := by decide +kernel
  have hopen : ¬ BlockedIfParsed Sample.blocking packet := fun h =>
    absurd (h _ hparse) (by decide)
  refine ⟨packet, [0, 1, 0, 1], ⟨[0], by decide, by decide⟩ :: Sample.labels,
    by decide +kernel, decode_eq_some.mpr rfl, ⟨⟨_, Finset.mem_singleton_self _, Sample.labels,
      by decide, List.suffix_cons _ _, by decide⟩, by simp [Sample.blocking]⟩, ?_, ?_⟩
  · rwa [Worker.enforced_iff]
  · rwa [QueryHandler.enforced_iff]

end Denis
