import Denis.Handler.Question
import Denis.Handler.Query

/-!
# Blocked replies as messages

The replies that `UpstreamResponse::blocked` builds from a query, read back with
the decoder of messages. All of them are a header and the bytes up to where the
scanner takes the question to end (`reply`), with QDCOUNT as the client sent it and
at most one record of class IN behind (`blocked_form`). So they are responses to
the question only for queries with one question, read to its end (`blocked_iff`).
-/

namespace Denis

open Text DomainName DnsMessage

namespace UpstreamResponse

/-! ## The bytes of the replies -/

/-- A reply that keeps the id, the RD bit, QDCOUNT and the question of the query. -/
def reply (query : Query) (flags : UInt8 × UInt8) (ancount : UInt8) (extra : Bytes) : Bytes :=
  [query.raw.getD 0 0, query.raw.getD 1 0, flags.1 ||| query.raw.getD 2 0 &&& 1, flags.2,
      query.raw.getD 4 0, query.raw.getD 5 0, 0, ancount, 0, 0, 0, 0] ++
    ((query.raw.drop 12).take (query.answerOffset - 12) ++ extra)

/-- The record that `zero_ip` appends. -/
def zeroRecord (ip : IpAddr) : Record :=
  ⟨.pointer 12, UInt16.ofNat (zeroIpRecord ip).1, 1, 60,
    .ofBytes (zeroIpRecord ip).2 (Nat.lt_of_le_of_lt (zeroIpRecord_length ip) (by decide))⟩

theorem u16_write_ofNat {n : Nat} (h : n < 65536) :
    u16.write (UInt16.ofNat n) = u16BeBytes n := by
  have hn : (UInt16.ofNat n).toNat = n := by
    rw [UInt16.toNat_ofNat']
    omega
  show [UInt8.ofNat ((UInt16.ofNat n).toNat / 256), UInt8.ofNat (UInt16.ofNat n).toNat] = _
  rw [hn, u16BeBytes]

theorem zeroRecord_write (ip : IpAddr) : record.write (zeroRecord ip) =
    [0xC0, 0x0C] ++ (u16BeBytes (zeroIpRecord ip).1 ++ (u16BeBytes 1 ++ ([0, 0, 0, 60] ++
      (u16BeBytes (zeroIpRecord ip).2.length ++ (zeroIpRecord ip).2)))) := by
  have hlength := zeroIpRecord_length ip
  have htype : (zeroIpRecord ip).1 < 65536 := by cases ip <;> simp [zeroIpRecord]
  have howner : (zeroRecord ip).owner.write = [0xC0, 0x0C] := rfl
  have hclass : u16.write (zeroRecord ip).rclass = u16BeBytes 1 := rfl
  have httl : u32.write (zeroRecord ip).ttl = [0, 0, 0, 60] := show u32.write 60 = _ by decide
  rw [record_write, howner, hclass, httl, ← u16_write_ofNat htype,
    ← @u16_write_ofNat (zeroIpRecord ip).2.length (by omega)]
  rfl

/-- The header that `zero_ip` writes over a query. -/
theorem header_zeroIp (b0 b1 b2 b3 b4 b5 b6 b7 b8 b9 b10 b11 f2 f3 : UInt8) (asked : Bytes) :
    fill ((((([b0, b1, b2, b3, b4, b5, b6, b7, b8, b9, b10, b11] ++ asked).set 2 f2).set 3 f3).set
      6 0).set 7 1) 8 12 0 = [b0, b1, f2, f3, b4, b5, 0, 1, 0, 0, 0, 0] ++ asked := by
  show fill ([b0, b1, f2, f3, b4, b5, 0, 1, b8, b9, b10, b11] ++ asked) 8 12 0 = _
  rw [fill_append _ asked (by simp)]
  simp [fill]

/-- The header that `refused` writes over a query. -/
theorem header_refused (b0 b1 b2 b3 b4 b5 b6 b7 b8 b9 b10 b11 f2 f3 : UInt8) (asked : Bytes) :
    fill ((([b0, b1, b2, b3, b4, b5, b6, b7, b8, b9, b10, b11] ++ asked).set 2 f2).set 3 f3)
      6 12 0 = [b0, b1, f2, f3, b4, b5, 0, 0, 0, 0, 0, 0] ++ asked := by
  show fill ([b0, b1, f2, f3, b4, b5, b6, b7, b8, b9, b10, b11] ++ asked) 6 12 0 = _
  rw [fill_append _ asked (by simp)]
  simp [fill]

/-- The first bytes of a message, one by one. -/
theorem take_eq_map_getD {xs : Bytes} {n : Nat} (h : n ≤ xs.length) :
    xs.take n = (List.range n).map (xs.getD · 0) := by
  refine List.ext_getElem (by simpa using h) fun i hi _ => ?_
  rw [List.length_take] at hi
  simp [List.getD_eq_getElem?_getD, List.getElem?_eq_getElem (show i < xs.length by omega)]

section Bytes

variable {query : Query} (hlow : 12 ≤ query.answerOffset)
  (hwhole : query.answerOffset ≤ query.raw.length)

include hlow hwhole

/-- The bytes copied of the query. -/
theorem question_eq : question query =
    [query.raw.getD 0 0, query.raw.getD 1 0, query.raw.getD 2 0, query.raw.getD 3 0,
      query.raw.getD 4 0, query.raw.getD 5 0, query.raw.getD 6 0, query.raw.getD 7 0,
      query.raw.getD 8 0, query.raw.getD 9 0, query.raw.getD 10 0, query.raw.getD 11 0] ++
    (query.raw.drop 12).take (query.answerOffset - 12) := by
  rw [question, Nat.min_eq_left hwhole]
  obtain ⟨n, hn⟩ := Nat.exists_eq_add_of_le hlow
  rw [hn, List.take_add, take_eq_map_getD (Nat.le_trans hlow hwhole), Nat.add_sub_cancel_left]
  rfl

theorem question_rd : (question query).getD 2 0 = query.raw.getD 2 0 := by
  rw [question_eq hlow hwhole]
  rfl

theorem nxdomain_raw : (nxdomain query).raw = reply query (0x84, 0x83) 0 [] := by
  have h12 : 12 ≤ (question query).length := by
    rw [question_length]
    omega
  rw [nxdomain, if_pos h12, question_rd hlow hwhole, question_eq hlow hwhole, reply,
    List.append_nil]
  rfl

theorem refused_raw : (refused query).raw = reply query (0x80, 0x05) 0 [] := by
  have h12 : 12 ≤ (question query).length := by
    rw [question_length]
    omega
  rw [refused, if_pos h12, question_rd hlow hwhole, question_eq hlow hwhole, reply,
    List.append_nil, header_refused]

theorem zeroIp_raw (ip : IpAddr) :
    (zeroIp query ip).raw = reply query (0x84, 0x80) 1 (record.write (zeroRecord ip)) := by
  have h12 : ¬ (question query).length < 12 := by
    rw [question_length]
    omega
  rw [zeroIp, if_neg h12, question_rd hlow hwhole, question_eq hlow hwhole, reply,
    zeroRecord_write]
  dsimp only
  rw [header_zeroIp]
  simp only [List.append_assoc]

end Bytes

/-- Whether a zero address is called for. -/
def WantsZero (query : Query) (mode : BlockingMode) : Prop :=
  mode = .zeroIp ∧ (query.queryType = .a ∨ query.queryType = .aaaa)

/-- The zero address of a type. -/
def zeroOf (qtype : RecordType) : IpAddr :=
  if qtype = .a then .v4 (Vector.replicate 4 0) else .v6 (Vector.replicate 16 0)

/-- **The three forms of a blocked reply.** -/
theorem blocked_form {query : Query} (hlow : 12 ≤ query.answerOffset)
    (hwhole : query.answerOffset ≤ query.raw.length) (mode : BlockingMode) :
    (¬ WantsZero query mode ∧
      (blocked query mode = ⟨.nxDomain, reply query (0x84, 0x83) 0 []⟩ ∨
        blocked query mode = ⟨.refused, reply query (0x80, 0x05) 0 []⟩)) ∨
    (WantsZero query mode ∧ blocked query mode = ⟨.noError,
      reply query (0x84, 0x80) 1 (record.write (zeroRecord (zeroOf query.queryType)))⟩) := by
  have hnxdomain : nxdomain query = ⟨.nxDomain, reply query (0x84, 0x83) 0 []⟩ := by
    rw [← nxdomain_raw hlow hwhole]
    rfl
  cases mode with
  | nxDomain => exact .inl ⟨fun h => (by cases h.1), .inl hnxdomain⟩
  | refused =>
    refine .inl ⟨fun h => (by cases h.1), .inr ?_⟩
    rw [← refused_raw hlow hwhole]
    rfl
  | zeroIp =>
    have h12 : ¬ (question query).length < 12 := by
      rw [question_length]
      omega
    have hzero : ∀ ip, zeroIp query ip =
        ⟨.noError, reply query (0x84, 0x80) 1 (record.write (zeroRecord ip))⟩ := by
      intro ip
      rw [← zeroIp_raw hlow hwhole, zeroIp, if_neg h12]
    by_cases ha : query.queryType = .a
    · refine .inr ⟨⟨rfl, .inl ha⟩, ?_⟩
      rw [← hzero, blocked, RuntimeConfig.zeroIp, if_pos ha, zeroOf, if_pos ha]
    · by_cases haaaa : query.queryType = .aaaa
      · refine .inr ⟨⟨rfl, .inr haaaa⟩, ?_⟩
        rw [← hzero, blocked, RuntimeConfig.zeroIp, if_neg ha, if_pos haaaa, zeroOf, if_neg ha]
      · refine .inl ⟨fun h => h.2.elim ha haaaa, .inl ?_⟩
        rw [← hnxdomain, blocked, RuntimeConfig.zeroIp, if_neg ha, if_neg haaaa]

end UpstreamResponse

/-! ## What a reply should be -/

open UpstreamResponse

/-- The whole reply is a response to the query and its question. -/
structure IsResponse (query : Query) (q : DnsMessage.Question) (res : UpstreamResponse)
    (m : Message) : Prop where
  decodes : message.decode res.raw = some m
  names : m.wellFormed = true
  question : m.questions.1.head? = some q
  id : u16.write m.header.id = query.raw.take 2
  rd : m.header.rd = decide (query.raw.getD 2 0 &&& 1 = 1)
  qr : m.header.qr = true
  opcode : m.header.opcode = 0
  nscount : m.header.nscount = 0
  arcount : m.header.arcount = 0
  rcode : m.header.rcode.toNat = res.code.toU16.toNat

/-- The one answer is the zero address of the name asked for. -/
def IsZeroAddress (query : Query) (q : DnsMessage.Question) (m : Message) : Prop :=
  ∃ r ls, m.answers.1 = [r] ∧ resolve (message.write m) 12 q.name = some ls ∧
    resolve (message.write m) (12 + (m.questions.1.flatMap question.write).length) r.owner =
      some ls ∧
    r.rtype = q.qtype ∧ r.rclass = q.qclass ∧
    r.data.bytes = List.replicate (if query.queryType = .a then 4 else 16) 0

/-- The packets that are answered so: one question, of a name of at most 255 octets
none of whose labels starts with a zero byte, and of class IN where a zero address
is called for. -/
structure Answerable (query : Query) (mode : BlockingMode) (q : DnsMessage.Question) : Prop where
  single : (query.raw.drop 4).take 2 = [0, 1]
  visible : ∀ l ∈ q.name.labels, Parser.Visible l = true
  fits : (wire q.name.labels).length + 1 ≤ 255
  internet : WantsZero query mode → q.qclass = 1

section Reply

variable {query : Query} {q : DnsMessage.Question} {flags : UInt8 × UInt8} {answers : List Record}

/-- The copied bytes are the question. -/
theorem copied_eq (hasks : Parser.Asks query.raw q) (hread : Parser.ReadWhole query q) :
    (query.raw.drop 12).take (query.answerOffset - 12) = question.write q := by
  obtain ⟨rest, hrest⟩ := hasks
  have hlength : query.answerOffset - 12 = (question.write q).length := by
    rw [hread.offset, Parser.header]
    omega
  rw [hlength]
  exact (congrArg _ hrest).trans List.take_left

theorem single_getD (hsingle : (query.raw.drop 4).take 2 = [0, 1]) :
    query.raw.getD 4 0 = 0 ∧ query.raw.getD 5 0 = 1 := by
  have h4 := congrArg (·[0]?) hsingle
  have h5 := congrArg (·[1]?) hsingle
  simp only [List.getElem?_take, List.getElem?_drop] at h4 h5
  rw [List.getD_eq_getElem?_getD, List.getD_eq_getElem?_getD]
  exact ⟨congrArg (·.getD 0) h4, congrArg (·.getD 0) h5⟩

/-- The message of a reply to a query with one question. -/
def replyMessage (query : Query) (q : DnsMessage.Question) (flags : UInt8 × UInt8)
    (answers : List Record) (h : answers.length < 256) : Message where
  header := {
    id := UInt16.ofNat ((query.raw.getD 0 0).toNat * 256 + (query.raw.getD 1 0).toNat)
    flags := (flags.1 ||| query.raw.getD 2 0 &&& 1, flags.2)
    qdcount := 1, ancount := UInt16.ofNat answers.length, nscount := 0, arcount := 0 }
  questions := ⟨[q], rfl⟩
  answers := ⟨answers, length_eq_count (Nat.lt_trans h (by decide))⟩
  authorities := noRecords
  additionals := noRecords

theorem write_replyMessage (hasks : Parser.Asks query.raw q) (hread : Parser.ReadWhole query q)
    (hsingle : (query.raw.drop 4).take 2 = [0, 1]) (h : answers.length < 256) :
    message.write (replyMessage query q flags answers h) =
      reply query flags (UInt8.ofNat answers.length) (answers.flatMap record.write) := by
  obtain ⟨h4, h5⟩ := single_getD hsingle
  have hid := u16_write_bytes (query.raw.getD 0 0) (query.raw.getD 1 0)
  have hcount : u16.write (UInt16.ofNat answers.length) = [0, UInt8.ofNat answers.length] := by
    rw [u16_write_ofNat (by omega), u16BeBytes, Nat.div_eq_of_lt h]
    rfl
  have hone : u16.write 1 = [0, 1] := rfl
  have hzero : u16.write 0 = [0, 0] := rfl
  rw [message_write, header_write, reply, h4, h5, copied_eq hasks hread]
  simp only [replyMessage, noRecords, hid, hcount, hone, hzero, List.flatMap_cons, List.flatMap_nil,
    List.append_nil, List.cons_append, List.nil_append]

/-- The lowest bit. -/
theorem and_one (b : UInt8) : b &&& 1 = 0 ∨ b &&& 1 = 1 := by
  have hand : (b &&& 1).toNat = b.toNat % 2 := (UInt8.toNat_and b 1).trans (Nat.and_one_is_mod _)
  rcases Nat.mod_two_eq_zero_or_one b.toNat with heven | hodd
  · exact .inl (UInt8.toNat_inj.mp (hand.trans heven))
  · exact .inr (UInt8.toNat_inj.mp (hand.trans hodd))

/-- **A reply with the query's question is a response to it.** -/
theorem isResponse_reply (hlong : 12 ≤ query.raw.length) (hasks : Parser.Asks query.raw q)
    (hread : Parser.ReadWhole query q)
    (hsingle : (query.raw.drop 4).take 2 = [0, 1]) (h : answers.length < 256)
    (hnames : (replyMessage query q flags answers h).wellFormed = true)
    (hflags : flags.1 = 0x84 ∨ flags.1 = 0x80) {code : ResponseCode}
    (hcode : (flags.2 &&& 0x0F).toNat = code.toU16.toNat) :
    IsResponse query q
      ⟨code, reply query flags (UInt8.ofNat answers.length) (answers.flatMap record.write)⟩
      (replyMessage query q flags answers h) where
  decodes := message.decode_eq_some.mpr (write_replyMessage hasks hread hsingle h).symm
  names := hnames
  question := rfl
  id := by
    rw [take_eq_map_getD (Nat.le_trans (by decide) hlong)]
    exact u16_write_bytes ..
  rd := by
    show decide ((flags.1 ||| query.raw.getD 2 0 &&& 1) &&& 1 = 1) = _
    rcases hflags with hflags | hflags <;>
      rcases and_one (query.raw.getD 2 0) with hrd | hrd <;> rw [hflags, hrd] <;> rfl
  qr := by
    show decide (128 ≤ flags.1 ||| query.raw.getD 2 0 &&& 1) = true
    rcases hflags with hflags | hflags <;>
      rcases and_one (query.raw.getD 2 0) with hrd | hrd <;> rw [hflags, hrd] <;> rfl
  opcode := by
    show ((flags.1 ||| query.raw.getD 2 0 &&& 1) >>> 3) &&& 0x0F = 0
    rcases hflags with hflags | hflags <;>
      rcases and_one (query.raw.getD 2 0) with hrd | hrd <;> rw [hflags, hrd] <;> rfl
  nscount := rfl
  arcount := rfl
  rcode := hcode

/-- What a reply that is a message says of it. -/
theorem eq_of_reply {m : Message} {count : UInt8} {extra : Bytes}
    (h : reply query flags count extra = message.write m) :
    u16.write m.header.qdcount = [query.raw.getD 4 0, query.raw.getD 5 0] ∧
      m.answers.1.length = count.toNat ∧ m.authorities.1 = [] ∧ m.additionals.1 = [] ∧
      (query.raw.drop 12).take (query.answerOffset - 12) ++ extra =
        m.questions.1.flatMap question.write ++ m.answers.1.flatMap record.write := by
  rw [reply, message_write] at h
  obtain ⟨hheader, hbody⟩ := List.append_inj h rfl
  have hqdcount : [query.raw.getD 4 0, query.raw.getD 5 0] = u16.write m.header.qdcount :=
    congrArg (fun bytes => (bytes.drop 4).take 2) hheader
  have hancount : [0, count] = u16.write m.header.ancount :=
    congrArg (fun bytes => (bytes.drop 6).take 2) hheader
  have hnscount : [0, 0] = u16.write m.header.nscount :=
    congrArg (fun bytes => (bytes.drop 8).take 2) hheader
  have harcount : [0, 0] = u16.write m.header.arcount :=
    congrArg (fun bytes => (bytes.drop 10).take 2) hheader
  have hcount := u16_write_inj ((u16_write_bytes 0 count).trans hancount)
  have hauthorities : m.authorities.1 = [] := by
    rw [← List.length_eq_zero_iff, m.authorities.2,
      ← u16_write_inj ((u16_write_bytes 0 0).trans hnscount)]
    rfl
  have hadditionals : m.additionals.1 = [] := by
    rw [← List.length_eq_zero_iff, m.additionals.2,
      ← u16_write_inj ((u16_write_bytes 0 0).trans harcount)]
    rfl
  refine ⟨hqdcount.symm, ?_, hauthorities, hadditionals, ?_⟩
  · have hlt := count.toNat_lt
    rw [m.answers.2, ← hcount, UInt16.toNat_ofNat']
    show (0 * 256 + count.toNat) % _ = _
    omega
  · rw [hbody, hauthorities, hadditionals]
    simp

/-- **A reply that is a response has one question**, which the scanner read to its
end, and as many bytes of answers as were appended. -/
theorem readWhole_of_response {data : Bytes} (hquery : Parser.parseUdp data = .ok query)
    (hasks : Parser.Asks data q) (hlow : 12 ≤ query.answerOffset)
    (hwhole : query.answerOffset ≤ query.raw.length) {m : Message} {extra : Bytes}
    (hquestion : m.questions.1.head? = some q)
    (hbody : (query.raw.drop 12).take (query.answerOffset - 12) ++ extra =
      m.questions.1.flatMap question.write ++ m.answers.1.flatMap record.write)
    (hlength : extra.length < (m.answers.1.flatMap record.write).length + 4)
    (hread : ¬ Parser.ReadWhole query q →
      extra.length ≤ (m.answers.1.flatMap record.write).length) :
    m.questions.1 = [q] ∧ Parser.ReadWhole query q := by
  obtain ⟨qs, hqs⟩ := List.head?_eq_some_iff.mp hquestion
  have hbytes := congrArg List.length hbody
  rw [hqs, List.flatMap_cons] at hbytes
  simp only [List.length_append, List.length_take, List.length_drop] at hbytes
  have hwhole' : Parser.ReadWhole query q := by
    by_contra hnot
    have hextra := hread hnot
    rcases Parser.answerOffset_asks hquery hasks with h | ⟨hearly, -⟩
    · exact hnot h
    · rw [Parser.header] at hearly
      omega
  have hoffset := hwhole'.offset
  rw [Parser.header] at hoffset
  refine ⟨?_, hwhole'⟩
  cases qs with
  | nil => exact hqs
  | cons q' qs =>
    rw [List.flatMap_cons, List.length_append, question_write_length q'] at hbytes
    omega

/-! ## Names of the replies -/

theorem replyMessage_names (h : answers.length < 256) :
    (replyMessage query q flags answers h).names = (12, q.name) ::
      placed (12 + (question.write q).length)
        (answers.map fun r => (r.owner, (record.write r).length)) := by
  simp [Message.names, replyMessage, noRecords, placed]

/-- The question's name, where the scanner read it to its end. -/
theorem name_eq (hread : Parser.ReadWhole query q) : q.name = ⟨q.name.labels, .root⟩ := by
  rw [← hread.root]

theorem isName_question (hread : Parser.ReadWhole query q)
    (hfits : (wire q.name.labels).length + 1 ≤ 255) (msg : Bytes) :
    Message.isName msg 12 q.name = true := by
  rw [Message.isName, name_eq hread, resolve_root]
  simpa using hfits

/-- A pointer to the question's name. -/
theorem resolve_question (hread : Parser.ReadWhole query q) (h : answers.length < 256)
    {start : Nat} (hstart : 12 < start) :
    resolve (message.write (replyMessage query q flags answers h)) start (.pointer 12) =
      some q.name.labels := by
  have htarget : (message.write (replyMessage query q flags answers h)).drop 12 =
      encodedName.write ⟨q.name.labels, .root⟩ ++ (u16.write q.qtype ++ (u16.write q.qclass ++
        answers.flatMap record.write)) := by
    rw [← name_eq hread, message_write]
    show (question.write q ++ [] ++ _) = _
    simp [question_write, replyMessage, noRecords, encodedName]
  exact resolve_pointer hstart htarget

/-- What a query must be to have been answered with its one question. -/
theorem answerable_of {mode : BlockingMode} {m : Message} (hlong : 12 ≤ query.raw.length)
    (hread : Parser.ReadWhole query q) (hquestions : m.questions.1 = [q])
    (hqdcount : u16.write m.header.qdcount = [query.raw.getD 4 0, query.raw.getD 5 0])
    (hnames : m.wellFormed = true) (hclass : WantsZero query mode → q.qclass = 1) :
    Answerable query mode q where
  single := by
    have hone : m.header.qdcount = 1 := by
      refine UInt16.toNat_inj.mp ?_
      rw [← m.questions.2, hquestions]
      rfl
    rw [hone] at hqdcount
    have htwo : (query.raw.drop 4).take 2 = [query.raw.getD 4 0, query.raw.getD 5 0] := by
      rw [take_eq_map_getD (by rw [List.length_drop]; omega)]
      simp [List.range_succ, List.getD_eq_getElem?_getD]
    rw [htwo, ← hqdcount]
    rfl
  visible := hread.visible
  fits := by
    have hname : Message.isName (message.write m) 12 q.name = true := by
      refine List.all_eq_true.mp hnames (12, q.name) ?_
      rw [Message.names, hquestions]
      exact List.mem_cons_self ..
    rw [Message.isName, name_eq hread, resolve_root] at hname
    simpa using hname
  internet := hclass

theorem zeroRecord_data (qtype : RecordType) : (zeroRecord (zeroOf qtype)).data.bytes =
    List.replicate (if qtype = .a then 4 else 16) 0 := by
  rw [zeroOf]
  split <;> rfl

theorem zeroRecord_rtype {qtype : UInt16} (h : (⟨qtype⟩ : RecordType) = .a ∨
    (⟨qtype⟩ : RecordType) = .aaaa) : (zeroRecord (zeroOf ⟨qtype⟩)).rtype = qtype := by
  rcases h with h | h
  · obtain rfl : qtype = 1 := congrArg RecordType.code h
    rfl
  · obtain rfl : qtype = 28 := congrArg RecordType.code h
    rfl

/-- A reply of header and question alone. -/
theorem plainReply_isResponse (hlong : 12 ≤ query.raw.length) (hasks : Parser.Asks query.raw q)
    (hread : Parser.ReadWhole query q) (hsingle : (query.raw.drop 4).take 2 = [0, 1])
    (hfits : (wire q.name.labels).length + 1 ≤ 255)
    (hflags : flags.1 = 0x84 ∨ flags.1 = 0x80) {code : ResponseCode}
    (hcode : (flags.2 &&& 0x0F).toNat = code.toU16.toNat) :
    ∃ m, IsResponse query q ⟨code, reply query flags 0 []⟩ m := by
  have hnone : ([] : List Record).length < 256 := by decide
  have hnames : (replyMessage query q flags [] hnone).wellFormed = true := by
    rw [Message.wellFormed, replyMessage_names]
    simp [placed, isName_question hread hfits]
  exact ⟨_, isResponse_reply hlong hasks hread hsingle hnone hnames hflags hcode⟩

/-- A reply with the zero address. -/
theorem zeroReply_isResponse (hlong : 12 ≤ query.raw.length) (hasks : Parser.Asks query.raw q)
    (hread : Parser.ReadWhole query q) {mode : BlockingMode} (hq : Answerable query mode q)
    (hwants : WantsZero query mode) :
    ∃ m, IsResponse query q ⟨.noError, reply query (0x84, 0x80) 1
      (record.write (zeroRecord (zeroOf query.queryType)))⟩ m ∧ IsZeroAddress query q m := by
  have hone : [zeroRecord (zeroOf query.queryType)].length < 256 := by simp
  have hstart : 12 < 12 + (question.write q).length := by
    rw [question_write_length]
    omega
  have hpointer := fun answers h => @resolve_question _ _ (0x84, 0x80) answers hread h _ hstart
  have hnames : (replyMessage query q (0x84, 0x80) [zeroRecord (zeroOf query.queryType)]
      hone).wellFormed = true := by
    rw [Message.wellFormed, replyMessage_names]
    simp only [List.map_cons, List.map_nil, placed, List.all_cons, List.all_nil,
      isName_question hread hq.fits, Bool.and_true, Bool.true_and]
    show Message.isName _ _ (.pointer 12) = true
    rw [Message.isName, hpointer]
    simpa using hq.fits
  have hresponse : IsResponse query q ⟨.noError, _⟩ _ :=
    isResponse_reply hlong hasks hread hq.single hone hnames (.inl rfl) (by decide)
  rw [List.flatMap_singleton] at hresponse
  refine ⟨_, hresponse, _, q.name.labels, rfl, ?_, ?_, ?_, ?_, ?_⟩
  · rw [name_eq hread, resolve_root]
  · -- the answer points back to the question
    show resolve _ (12 + ([q].flatMap DnsMessage.question.write).length) (.pointer 12) = _
    rw [List.flatMap_singleton]
    exact hpointer _ _
  · rw [hread.qtype]
    exact zeroRecord_rtype (hread.qtype ▸ hwants.2)
  · exact (hq.internet hwants).symm
  · exact zeroRecord_data _

/-- A zero address that is appended and read back is of class IN, and the question
was read to its end. -/
theorem readWhole_of_zeroAddress {data : Bytes} (hquery : Parser.parseUdp data = .ok query)
    (hasks : Parser.Asks data q) (hlow : 12 ≤ query.answerOffset)
    (hwhole : query.answerOffset ≤ query.raw.length) {m : Message}
    (hquestion : m.questions.1.head? = some q)
    (hbody : (query.raw.drop 12).take (query.answerOffset - 12) ++
        record.write (zeroRecord (zeroOf query.queryType)) =
      m.questions.1.flatMap question.write ++ m.answers.1.flatMap record.write)
    (hzero : IsZeroAddress query q m) :
    m.questions.1 = [q] ∧ Parser.ReadWhole query q ∧ q.qclass = 1 := by
  obtain ⟨r, ls, hanswers, hname, howner, -, hclass, hdata⟩ := hzero
  have happended := record_write_length (zeroRecord (zeroOf query.queryType))
  have hrecord := record_write_length r
  rw [zeroRecord_data] at happended
  rw [hdata] at hrecord
  have hpointer : (zeroRecord (zeroOf query.queryType)).owner.write.length = 2 := rfl
  rw [hanswers, List.flatMap_singleton] at hbody
  have hbody' := hbody
  rw [← List.flatMap_singleton record.write r, ← hanswers] at hbody'
  have hanswered : (m.answers.1.flatMap record.write).length = (record.write r).length := by
    rw [hanswers, List.flatMap_singleton]
  obtain ⟨hquestions, hread⟩ := readWhole_of_response hquery hasks hlow hwhole hquestion hbody'
    (by
      obtain ⟨b, bs, hcons⟩ := r.owner.write_cons
      have hpos := congrArg List.length hcons
      rw [List.length_cons] at hpos
      omega)
    (by
      -- the owner of the answer has the labels of the question, so it takes two bytes
      intro hnot
      have hlabels : q.name.labels ≠ [] := by
        rcases Parser.answerOffset_asks hquery hasks with h | ⟨-, l, hl, -⟩
        · exact absurd h hnot
        · exact List.ne_nil_of_mem hl
      have htwo : 1 < r.owner.write.length := by
        by_contra hshort
        rw [EncodedName.eq_root_of_length (Nat.le_of_not_lt hshort), resolve_root] at howner
        obtain rfl := Option.some.inj howner
        exact hlabels (List.prefix_nil.mp (prefix_resolve hname))
      omega)
  refine ⟨hquestions, hread, ?_⟩
  have hasks' : Parser.Asks query.raw q := Parser.parseUdp_raw hquery ▸ hasks
  rw [copied_eq hasks' hread, hquestions, List.flatMap_singleton, List.append_cancel_left_eq]
    at hbody
  have hsame : zeroRecord (zeroOf query.queryType) = r :=
    (record.write_append_inj (congrArg (· ++ []) hbody)).1
  rw [← hclass, ← hsame]
  rfl

end Reply

/-- **Blocked replies are answers to the question** just for the queries that ask one
question the scanner reads to its end, of at most 255 octets, and of class IN where
a zero address is called for. -/
theorem blocked_iff {data : Bytes} {query : Query} (hquery : Parser.parseUdp data = .ok query)
    (hwhole : query.answerOffset ≤ query.raw.length) (mode : BlockingMode) :
    (∃ q m, Parser.Asks data q ∧ IsResponse query q (blocked query mode) m ∧
        (WantsZero query mode → IsZeroAddress query q m)) ↔
      ∃ q, Parser.Asks data q ∧ Answerable query mode q := by
  have hbounds := Parser.parseUdp_bounded hquery
  have hraw := Parser.parseUdp_raw hquery
  have hlow : 12 ≤ query.answerOffset := Nat.le_trans (by decide) hbounds.low
  have hlong : 12 ≤ query.raw.length := Nat.le_trans hlow hwhole
  constructor
  · rintro ⟨q, m, hasks, hresponse, hzero⟩
    refine ⟨q, hasks, ?_⟩
    have hbytes := message.decode_eq_some.mp hresponse.decodes
    rcases blocked_form hlow hwhole mode with ⟨hwants, hform⟩ | ⟨hwants, hform⟩
    · obtain ⟨flags, hflags⟩ : ∃ flags, reply query flags 0 [] = message.write m := by
        rcases hform with hform | hform
        · exact ⟨_, hform ▸ hbytes⟩
        · exact ⟨_, hform ▸ hbytes⟩
      obtain ⟨hqdcount, hanswers, -, -, hbody⟩ := eq_of_reply hflags
      have hnone := List.length_eq_zero_iff.mp hanswers
      obtain ⟨hquestions, hread⟩ := readWhole_of_response hquery hasks hlow hwhole
        hresponse.question hbody (by simp) (by simp)
      exact answerable_of hlong hread hquestions hqdcount hresponse.names
        fun h => absurd h hwants
    · rw [hform] at hbytes
      obtain ⟨hqdcount, -, -, -, hbody⟩ := eq_of_reply hbytes
      obtain ⟨hquestions, hread, hclass⟩ := readWhole_of_zeroAddress hquery hasks hlow hwhole
        hresponse.question hbody (hzero hwants)
      exact answerable_of hlong hread hquestions hqdcount hresponse.names fun _ => hclass
  · rintro ⟨q, hasks, hq⟩
    have hasks' : Parser.Asks query.raw q := hraw ▸ hasks
    have hread : Parser.ReadWhole query q := by
      rcases Parser.answerOffset_asks hquery hasks with h | ⟨-, l, hl, hzero⟩
      · exact h
      · rw [hq.visible l hl] at hzero
        cases hzero
    rcases blocked_form hlow hwhole mode with ⟨hwants, hform⟩ | ⟨hwants, hform⟩
    · have hplain : ∃ m, IsResponse query q (blocked query mode) m := by
        rcases hform with hform | hform
        · rw [hform]
          exact plainReply_isResponse hlong hasks' hread hq.single hq.fits (.inl rfl) (by decide)
        · rw [hform]
          exact plainReply_isResponse hlong hasks' hread hq.single hq.fits (.inr rfl) (by decide)
      obtain ⟨m, hresponse⟩ := hplain
      exact ⟨q, m, hasks, hresponse, fun h => absurd h hwants⟩
    · rw [hform]
      obtain ⟨m, hresponse, hzero⟩ := zeroReply_isResponse hlong hasks' hread hq hwants
      exact ⟨q, m, hasks, hresponse, fun _ => hzero⟩

/-- A query that asks twice for `ab.cd A`. -/
def twoQuestions : Bytes :=
  [0, 7, 1, 0, 0, 2, 0, 0, 0, 0, 0, 0] ++ (Sample.name ++ [0, 0, 1, 0, 1]) ++
    (Sample.name ++ [0, 0, 1, 0, 1])

/-- **Two questions are announced and one is sent**: the blocked reply does not
decode. -/
theorem two_questions_cut : ∃ query, Parser.parseUdp twoQuestions = .ok query ∧
    query.answerOffset ≤ query.raw.length ∧
    message.decode (blocked query .nxDomain).raw = none :=
  ⟨⟨['a', 'b', '.', 'c', 'd'], .a, twoQuestions, 23⟩, by decide +kernel, by decide +kernel,
    by decide +kernel⟩

/-- A zero address for the query of one question. -/
theorem zero_address_answers :
    (∃ q m, Parser.Asks (Sample.packet 7 Sample.name) q ∧
        IsResponse (Sample.query 7) q (blocked (Sample.query 7) .zeroIp) m ∧
        (WantsZero (Sample.query 7) .zeroIp → IsZeroAddress (Sample.query 7) q m)) ↔
      ∃ q, Parser.Asks (Sample.packet 7 Sample.name) q ∧
        Answerable (Sample.query 7) .zeroIp q :=
  blocked_iff (by decide +kernel) (by decide) .zeroIp

end Denis
