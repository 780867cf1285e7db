import Denis.Handler.Question
import Denis.Handler.Query

/-!
# The TTL of an answer

`cache_ttl` reads the TTL of an upstream answer at a fixed distance from where the
question of the *query* ends. Here it is compared with the TTLs of the records of
the response: it is the first one's only if the encoding of its owner takes two
bytes (`cacheTtl_first_iff`), and may exceed those of the others
(`cacheTtl_le_iff`).
-/

namespace Denis

open Text DomainName DnsMessage

namespace Parser

variable {data : Bytes}

/-- The TTL read is the 32-bit number six past the offset. -/
theorem parseTtl_of_drop {off : Nat} {n : UInt32} {rest : Bytes}
    (h : u32.read (data.drop (off + 6)) = some (n, rest)) : parseTtl data off = n := by
  have hdrop := u32.read_eq_some.mp h
  have hlength := congrArg List.length hdrop
  rw [List.length_append, u32_write_length, List.length_drop] at hlength
  unfold parseTtl slice
  rw [if_pos (by omega), hdrop, Nat.add_sub_cancel_left]
  have hread := u32.read_write n []
  exact (Prod.mk.inj (Option.some.inj hread)).1

theorem parseTtl_toNat {off : Nat} {b0 b1 b2 b3 : UInt8} {rest : Bytes}
    (h : data.drop (off + 6) = b0 :: b1 :: b2 :: b3 :: rest) :
    (parseTtl data off).toNat = beNumber b0 b1 b2 b3 := by
  rw [@parseTtl_of_drop data off (UInt32.ofNat (beNumber b0 b1 b2 b3)) rest (h ▸ rfl),
    beNumber_toNat]

end Parser

/-! ## Reading beside a number -/

/-- What is read for a number of four bytes from elsewhere: something that does not
depend on it, its first bytes behind other bytes, or its last three before one. -/
inductive Misread (f : UInt32 → UInt32) : Prop
  | elsewhere (v : UInt32) (h : ∀ n, f n = v)
  | early (d c : Nat) (hd : d = 1 ∨ d = 2 ∨ d = 3) (hc : c < 256 ^ d)
      (h : ∀ n, (f n).toNat = c * 256 ^ (4 - d) + n.toNat / 256 ^ d)
  | late (b : Nat) (hb : b < 256) (h : ∀ n, (f n).toNat = n.toNat % 16777216 * 256 + b)

/-- **What is read from before a number or one byte into it.** -/
theorem misread {pre post : Bytes} {off : Nat} (hne : off + 6 ≠ pre.length)
    (hle : off + 6 ≤ pre.length + 1) (hpost : post ≠ []) :
    Misread fun n => Parser.parseTtl (pre ++ (u32.write n ++ post)) off := by
  by_cases hlate : off + 6 = pre.length + 1
  · obtain ⟨b, tail, rfl⟩ := List.exists_cons_of_ne_nil hpost
    refine .late b.toNat b.toNat_lt fun n => ?_
    have hdrop : (pre ++ (u32.write n ++ b :: tail)).drop (off + 6) =
        UInt8.ofNat (n.toNat / 65536) :: UInt8.ofNat (n.toNat / 256) :: UInt8.ofNat n.toNat ::
          b :: tail := by
      rw [hlate, ← List.drop_drop, List.drop_left]
      rfl
    have hn := n.toNat_lt
    rw [Parser.parseTtl_toNat hdrop, beNumber, UInt8.toNat_ofNat', UInt8.toNat_ofNat',
      UInt8.toNat_ofNat']
    omega
  · have hgap : ∀ n, (pre ++ (u32.write n ++ post)).drop (off + 6) =
        pre.drop (off + 6) ++ (u32.write n ++ post) :=
      fun n => List.drop_append_of_le_length (by omega)
    have hlength : (pre.drop (off + 6)).length ≠ 0 := by
      rw [List.length_drop]
      omega
    -- by how many bytes the reading starts too early
    rcases hpre : pre.drop (off + 6) with _ | ⟨a, _ | ⟨b, _ | ⟨c, _ | ⟨d, tail⟩⟩⟩⟩
    · rw [hpre] at hlength
      exact absurd rfl hlength
    · have ha := a.toNat_lt
      refine .early 1 a.toNat (.inl rfl) (by omega) fun n => ?_
      have hn := n.toNat_lt
      rw [Parser.parseTtl_toNat ((hgap n).trans (congrArg (· ++ _) hpre)), beNumber,
        UInt8.toNat_ofNat', UInt8.toNat_ofNat', UInt8.toNat_ofNat']
      omega
    · have ha := a.toNat_lt
      have hb := b.toNat_lt
      refine .early 2 (a.toNat * 256 + b.toNat) (.inr (.inl rfl)) (by omega) fun n => ?_
      have hn := n.toNat_lt
      rw [Parser.parseTtl_toNat ((hgap n).trans (congrArg (· ++ _) hpre)), beNumber,
        UInt8.toNat_ofNat', UInt8.toNat_ofNat']
      omega
    · have ha := a.toNat_lt
      have hb := b.toNat_lt
      have hc := c.toNat_lt
      refine .early 3 ((a.toNat * 256 + b.toNat) * 256 + c.toNat) (.inr (.inr rfl)) (by omega)
        fun n => ?_
      have hn := n.toNat_lt
      rw [Parser.parseTtl_toNat ((hgap n).trans (congrArg (· ++ _) hpre)), beNumber,
        UInt8.toNat_ofNat']
      omega
    · refine .elsewhere (UInt32.ofNat (beNumber a b c d)) fun n => ?_
      refine @Parser.parseTtl_of_drop _ _ _ (tail ++ (u32.write n ++ post)) ?_
      rw [hgap, hpre]
      rfl

/-- What two numbers have in common that are clamped to the same. -/
theorem clamp_eq_iff {x y lo hi : UInt32} (h : lo < hi) :
    RuntimeConfig.clamp x lo hi = RuntimeConfig.clamp y lo hi ↔
      (x ≤ lo ∧ y ≤ lo) ∨ (hi ≤ x ∧ hi ≤ y) ∨ x = y := by
  unfold RuntimeConfig.clamp
  grind

theorem early_ne {lo hi c d : Nat} (hd : d = 1 ∨ d = 2 ∨ d = 3) (hc : c < 256 ^ d) (hlt : lo < hi)
    (hhi : hi < 4294967296) (hlow : c * 256 ^ (4 - d) + lo / 256 ^ d ≤ lo) :
    ¬ hi ≤ c * 256 ^ (4 - d) + hi / 256 ^ d := by
  rcases hd with rfl | rfl | rfl
  · norm_num at hc hlow ⊢
    omega
  · norm_num at hc hlow ⊢
    omega
  · norm_num at hc hlow ⊢
    omega

/-- **A misread number differs from the number after clamping**, for some number,
when the bounds differ. -/
theorem Misread.clamp_ne {f : UInt32 → UInt32} (hf : Misread f) {lo hi : UInt32} (h : lo < hi) :
    ∃ n, RuntimeConfig.clamp (f n) lo hi ≠ RuntimeConfig.clamp n lo hi := by
  by_contra hall
  have heq : ∀ n, (f n ≤ lo ∧ n ≤ lo) ∨ (hi ≤ f n ∧ hi ≤ n) ∨ f n = n :=
    fun n => (clamp_eq_iff h).mp (not_not.mp fun hne => hall ⟨n, hne⟩)
  have hhi := hi.toNat_lt
  simp only [UInt32.le_iff_toNat_le, ← UInt32.toNat_inj, UInt32.lt_iff_toNat_lt] at heq h
  have hlow := heq lo
  have hhigh := heq hi
  cases hf with
  | elsewhere v hv =>
    rw [hv] at hlow hhigh
    omega
  | early d c hd hc hv =>
    rw [hv] at hlow hhigh
    exact early_ne hd hc h hhi (by omega) (by omega)
  | late b hb hv =>
    -- the bounds, and a number with only its first byte or all but its first byte set
    have hfirst := heq 4278190080
    have hothers := heq 16777215
    rw [hv] at hlow hhigh hfirst hothers
    have hfirst' : (4278190080 : UInt32).toNat = 4278190080 := rfl
    have hothers' : (16777215 : UInt32).toNat = 16777215 := rfl
    omega

namespace RuntimeConfig

variable (config : RuntimeConfig)

/-- The upper bound that `clamp_ttl` takes. -/
theorem upper_bound : max config.cacheMaxTtl config.cacheMinTtl =
    if config.cacheMaxTtl ≤ config.cacheMinTtl then config.cacheMinTtl
    else config.cacheMaxTtl := rfl

/-- Bounds that leave no choice. -/
theorem clampTtl_of_le (h : config.cacheMaxTtl ≤ config.cacheMinTtl) (ttl : UInt32) :
    config.clampTtl ttl = config.cacheMinTtl := by
  rw [clampTtl, upper_bound, if_pos h, clamp]
  grind

/-- With no lower bound, a TTL is cut at the upper. -/
theorem clampTtl_le_iff (h : config.cacheMinTtl = 0) {x y : UInt32} :
    config.clampTtl x ≤ y ↔ x ≤ y ∨ config.cacheMaxTtl ≤ y := by
  rw [clampTtl, upper_bound, h, clamp]
  grind

end RuntimeConfig

/-! ## Concrete responses -/

namespace Sample

/-- The question for `ab.cd A`. -/
def question : DnsMessage.Question :=
  ⟨⟨[Parser.twoBytes 97 98, Parser.twoBytes 99 100], .root⟩, 1, 1⟩

/-- An address record. -/
def address (owner : EncodedName) (ttl : UInt32) : Record :=
  ⟨owner, 1, 1, ttl, .ofBytes [192, 0, 2, 1] (by decide)⟩

/-- A pointer to the name asked for. -/
def pointer : EncodedName := .pointer 12

/-- A response to the question. -/
def response (answers : List Record) (h : answers.length < 65536) : Message where
  header := ⟨7, (0x81, 0x80), 1, UInt16.ofNat answers.length, 0, 0⟩
  questions := ⟨[question], rfl⟩
  answers := ⟨answers, length_eq_count h⟩
  authorities := noRecords
  additionals := noRecords

/-- An answer that points to the name asked for. -/
def pointed : Message := response [address pointer 60] (by decide)

/-- An answer that spells it out. -/
def spelled : Message := response [address question.name 60] (by decide)

/-- An alias for `x.cd`, and its address under a shorter TTL. -/
def chain : Message :=
  response [⟨pointer, 5, 1, 3600, .ofBytes [1, 120, 0xC0, 15] (by decide)⟩,
    address (.pointer 35) 30] (by decide)

end Sample

/-! ## What is read of a response -/

section Response

variable {config : RuntimeConfig} {m : Message} {off : Nat}

/-- **The TTL of a positive response** is the number six past the offset,
clamped. -/
theorem cacheTtl_positive (hrcode : m.header.rcode = 0) (hanswers : m.answers.1 ≠ []) :
    cacheTtl config (message.write m) off =
      some (config.clampTtl (Parser.parseTtl (message.write m) off)) := by
  have hcount : 0 < m.header.ancount := by
    rw [UInt16.lt_iff_toNat_lt, ← m.answers.2]
    exact List.length_pos_iff.mpr hanswers
  have hbyte : (message.write m)[3]? = some m.header.flags.2 := rfl
  have hlong : 8 ≤ (message.write m).length := by
    rw [message_write, List.length_append, header_write_length]
    omega
  have hancount : Parser.u16FromBeBytes ((message.write m).getD 6 0)
      ((message.write m).getD 7 0) = m.header.ancount :=
    Parser.u16FromBeBytes_toNat m.header.ancount
  rw [cacheTtl, hbyte]
  dsimp only
  rw [if_pos hlong, hancount]
  exact if_pos ⟨hrcode, hcount⟩

/-! ## The first answer -/

/-- The response with another TTL in its first answer. -/
def withTtl (m : Message) (ttl : UInt32) : Message :=
  { m with answers := ⟨m.answers.1.modifyHead fun r => { r with ttl }, by simp [m.answers.2]⟩ }

variable {q : DnsMessage.Question} {first : Record} {rest : List Record}

/-- A response to `q` up to the TTL of its first answer. -/
def beforeTtl (m : Message) (q : DnsMessage.Question) (first : Record) : Bytes :=
  header.write m.header ++ (question.write q ++ (first.owner.write ++
    (u16.write first.rtype ++ u16.write first.rclass)))

/-- And from there on. -/
def afterTtl (m : Message) (first : Record) (rest : List Record) : Bytes :=
  u16.write first.data.1 ++ (first.data.bytes ++ (rest.flatMap record.write ++
    (m.authorities.1.flatMap record.write ++ m.additionals.1.flatMap record.write)))

theorem beforeTtl_length (m : Message) (q : DnsMessage.Question) (first : Record) :
    (beforeTtl m q first).length =
      Parser.header + (question.write q).length + first.owner.write.length + 4 := by
  simp only [beforeTtl, List.length_append, header_write_length, u16_write_length, Parser.header]
  omega

/-- The bytes of a response, around the TTL of its first answer. -/
theorem write_withTtl (hquestions : m.questions.1 = [q]) (hanswers : m.answers.1 = first :: rest)
    (ttl : UInt32) : message.write (withTtl m ttl) =
      beforeTtl m q first ++ (u32.write ttl ++ afterTtl m first rest) := by
  simp [message_write, withTtl, hquestions, hanswers, record_write, beforeTtl, afterTtl]

theorem withTtl_self (hanswers : m.answers.1 = first :: rest) : withTtl m first.ttl = m := by
  obtain ⟨h, qs, ⟨rs, hrs⟩, ns, ars⟩ := m
  obtain rfl : rs = first :: rest := hanswers
  rfl

/-- **The TTL is read at its place**, where the owner's encoding ends two bytes
past the offset. -/
theorem parseTtl_withTtl (hquestions : m.questions.1 = [q]) (hanswers : m.answers.1 = first :: rest)
    (hplace : off + 2 = Parser.header + (question.write q).length + first.owner.write.length)
    (ttl : UInt32) : Parser.parseTtl (message.write (withTtl m ttl)) off = ttl := by
  have hlength := beforeTtl_length m q first
  have hdrop : (message.write (withTtl m ttl)).drop (off + 6) =
      u32.write ttl ++ afterTtl m first rest := by
    rw [write_withTtl hquestions hanswers, List.drop_append_of_le_length (by omega),
      List.drop_eq_nil_of_le (by omega), List.nil_append]
  refine @Parser.parseTtl_of_drop _ _ _ (afterTtl m first rest) ?_
  rw [hdrop, Codec.read_write]

/-- **The first answer's TTL**: it is the TTL chosen, whatever it is, if the
configuration leaves no choice or the owner's encoding ends two bytes past the
answer offset; and only then. -/
theorem cacheTtl_first_iff {data : Bytes} {query : Query}
    (hquery : Parser.parseUdp data = .ok query) (hasks : Parser.Asks data q)
    (hquestions : m.questions.1 = [q]) (hrcode : m.header.rcode = 0)
    (hanswers : m.answers.1 = first :: rest) (config : RuntimeConfig) :
    (∀ ttl, cacheTtl config (message.write (withTtl m ttl)) query.answerOffset =
        some (config.clampTtl ttl)) ↔
      config.cacheMaxTtl ≤ config.cacheMinTtl ∨ query.answerOffset + 2 =
        Parser.header + (question.write q).length + first.owner.write.length := by
  have hread : ∀ ttl, cacheTtl config (message.write (withTtl m ttl)) query.answerOffset =
      some (config.clampTtl (Parser.parseTtl (message.write (withTtl m ttl))
        query.answerOffset)) :=
    fun ttl => cacheTtl_positive hrcode (by simp [withTtl, hanswers])
  simp only [hread, Option.some.injEq]
  constructor
  · intro hall
    by_contra hcond
    rw [not_or] at hcond
    -- the place read is beside the TTL, so some TTL is misread
    have hlength := beforeTtl_length m q first
    have hend : query.answerOffset ≤ Parser.header + (question.write q).length := by
      rcases Parser.answerOffset_asks hquery hasks with hread | ⟨hearly, -⟩
      · exact Nat.le_of_eq hread.offset
      · exact Nat.le_of_lt hearly
    obtain ⟨b, bs, howner⟩ := first.owner.write_cons
    have hpos := congrArg List.length howner
    rw [List.length_cons] at hpos
    have hmisread : Misread fun ttl =>
        Parser.parseTtl (message.write (withTtl m ttl)) query.answerOffset := by
      simp only [write_withTtl hquestions hanswers]
      exact misread (by omega) (by omega) (by simp [afterTtl, u16])
    have hbounds : config.cacheMinTtl < max config.cacheMaxTtl config.cacheMinTtl := by
      rw [config.upper_bound, if_neg hcond.1]
      exact UInt32.not_le.mp hcond.1
    obtain ⟨ttl, hne⟩ := hmisread.clamp_ne hbounds
    exact hne (hall ttl)
  · rintro (hbounds | hplace) ttl
    · rw [config.clampTtl_of_le hbounds, config.clampTtl_of_le hbounds]
    · rw [parseTtl_withTtl hquestions hanswers hplace]

/-- **A name spelled out is misread**: the answer's TTL is 60 and the response is
cached for 256 seconds, which is the end of the name, the type and half of the
class. -/
theorem spelled_owner_misread :
    Parser.parseUdp (Sample.packet 7 Sample.name) = .ok (Sample.query 7) ∧
      Parser.Asks (Sample.packet 7 Sample.name) Sample.question ∧
      Sample.spelled.wellFormed = true ∧ Sample.spelled.questions.1 = [Sample.question] ∧
      Sample.spelled.header.rcode = 0 ∧
      Sample.spelled.answers.1.map Record.ttl = [60] ∧
      cacheTtl Sample.config (message.write Sample.spelled) (Sample.query 7).answerOffset =
        some 256 ∧
      Sample.config.clampTtl 60 ≠ 256 :=
  ⟨by decide +kernel, ⟨[], by decide +kernel⟩, by decide +kernel, rfl, by decide, rfl,
    by decide +kernel, by decide⟩

/-- A response whose answer points to the name asked for. -/
theorem pointed_owner_read :
    (∀ ttl, cacheTtl Sample.config (message.write (withTtl Sample.pointed ttl))
        (Sample.query 7).answerOffset = some (Sample.config.clampTtl ttl)) ↔
      Sample.config.cacheMaxTtl ≤ Sample.config.cacheMinTtl ∨
        (Sample.query 7).answerOffset + 2 = Parser.header +
          (question.write Sample.question).length +
            (Sample.address Sample.pointer 60).owner.write.length :=
  @cacheTtl_first_iff _ _ _ _ (Sample.packet 7 Sample.name) _ (by decide +kernel)
    ⟨[], by decide +kernel⟩ rfl (by decide) rfl Sample.config

/-! ## The other answers -/

/-- The TTL a response is cached under before clamping: that of its first answer.
Where a label of the name asked for starts with a zero byte, the number in the four
bytes that stand six past the answer offset, which is short of the question's end. -/
def lifetime (m : Message) (q : DnsMessage.Question) (query : Query) : UInt32 :=
  if q.name.labels.all Parser.Visible then (m.answers.1.head?.map Record.ttl).getD 0
  else Parser.parseTtl (message.write m) query.answerOffset

/-- **Records that outlive the cached response.** With owners that are pointers and
no lower bound configured, a response is cached no longer than any of its answers
may be, just if every answer's TTL is at least the first's or at least the upper
bound. -/
theorem cacheTtl_le_iff {data : Bytes} {query : Query} (hquery : Parser.parseUdp data = .ok query)
    (hasks : Parser.Asks data q) (hquestions : m.questions.1 = [q]) (hrcode : m.header.rcode = 0)
    (howners : ∀ r ∈ m.answers.1, ∃ offset, r.owner = ⟨[], .pointer offset⟩)
    (config : RuntimeConfig) (hmin : config.cacheMinTtl = 0) :
    (∀ t, cacheTtl config (message.write m) query.answerOffset = some t →
        ∀ r ∈ m.answers.1, t ≤ r.ttl) ↔
      ∀ r ∈ m.answers.1, lifetime m q query ≤ r.ttl ∨ config.cacheMaxTtl ≤ r.ttl := by
  cases hanswers : m.answers.1 with
  | nil => simp
  | cons first rest =>
    have hread : Parser.parseTtl (message.write m) query.answerOffset = lifetime m q query := by
      rw [lifetime]
      split
      · next hvisible =>
        have hoffset := (Parser.answerOffset_eq_iff hquery hasks).mpr (List.all_eq_true.mp hvisible)
        obtain ⟨offset, howner⟩ := howners first (by simp [hanswers])
        have hplace : query.answerOffset + 2 =
            Parser.header + (question.write q).length + first.owner.write.length := by
          rw [hoffset, howner]
          rfl
        have hfirst := parseTtl_withTtl hquestions hanswers hplace first.ttl
        rw [withTtl_self hanswers] at hfirst
        rw [hfirst, hanswers]
        rfl
      · rfl
    rw [cacheTtl_positive hrcode (by simp [hanswers]), hread]
    simp only [Option.some.injEq, forall_eq', config.clampTtl_le_iff hmin]

/-- **A chain outlives its last record**: an alias with a TTL of 3600 and an address
with a TTL of 30 are cached for 3600 seconds. -/
theorem chain_outlives_address :
    Parser.parseUdp (Sample.packet 7 Sample.name) = .ok (Sample.query 7) ∧
      Parser.Asks (Sample.packet 7 Sample.name) Sample.question ∧
      Sample.chain.wellFormed = true ∧ Sample.chain.questions.1 = [Sample.question] ∧
      Sample.chain.header.rcode = 0 ∧
      (∀ r ∈ Sample.chain.answers.1, ∃ offset, r.owner = ⟨[], .pointer offset⟩) ∧
      Sample.config.cacheMinTtl = 0 ∧
      cacheTtl Sample.config (message.write Sample.chain) (Sample.query 7).answerOffset =
        some 3600 ∧
      ∃ r ∈ Sample.chain.answers.1, ¬ 3600 ≤ r.ttl := by
  refine ⟨by decide +kernel, ⟨[], by decide +kernel⟩, by decide +kernel, rfl, by decide, ?_, rfl,
    by decide +kernel, Sample.address (.pointer 35) 30, by simp [Sample.chain, Sample.response],
    by decide⟩
  intro r hr
  rcases List.mem_pair.mp hr with rfl | rfl
  · exact ⟨12, rfl⟩
  · exact ⟨35, rfl⟩

/-- A single answer is cached no longer than it may be. -/
theorem single_answer_expires :
    (∀ t, cacheTtl Sample.config (message.write Sample.pointed) (Sample.query 7).answerOffset =
        some t → ∀ r ∈ Sample.pointed.answers.1, t ≤ r.ttl) ↔
      ∀ r ∈ Sample.pointed.answers.1,
        lifetime Sample.pointed Sample.question (Sample.query 7) ≤ r.ttl ∨
          Sample.config.cacheMaxTtl ≤ r.ttl :=
  @cacheTtl_le_iff _ _ (Sample.packet 7 Sample.name) _ (by decide +kernel)
    ⟨[], by decide +kernel⟩ rfl (by decide)
    (fun r hr => ⟨12, by rw [List.mem_singleton.mp hr]; rfl⟩) Sample.config rfl

end Response

end Denis
