import Denis.Handler.Encoding
import Denis.Lib.DnsMessage

/-!
# The question of a packet, as a message has it

`Asks` relates a packet to the first question a decoder of messages finds in it.
The scanner of `parse_question` finds the same one (`ReadWhole`), unless a label
starts with a zero byte: then it stops too early (`answerOffset_asks`).
-/

namespace Denis

open Text DomainName DnsMessage

namespace Parser

/-- The packet's first question is `q`. -/
def Asks (data : Bytes) (q : DnsMessage.Question) : Prop :=
  ∃ rest, data.drop header = question.write q ++ rest

variable {data : Bytes} {query : Query} {q : DnsMessage.Question}

/-- A byte that is the length of a label is not the beginning of an ending. -/
theorem ending_ne_label {ending : Ending} {n : UInt8} {xs ys : Bytes} (hn : n ≠ 0)
    (hle : n.toNat ≤ 63) : ending.write ++ xs ≠ n :: ys := by
  obtain ⟨b, rest, hwrite, hb⟩ := ending.write_head
  rw [hwrite]
  intro h
  obtain ⟨rfl, -⟩ := List.cons.inj h
  rcases hb with rfl | hlong
  · exact hn rfl
  · omega

/-- The query is the question, read to its end. -/
structure ReadWhole (query : Query) (q : DnsMessage.Question) : Prop where
  offset : query.answerOffset = header + (question.write q).length
  visible : ∀ l ∈ q.name.labels, Visible l = true
  root : q.name.ending = .root
  qtype : query.queryType = ⟨q.qtype⟩

/-- **Where the scanner takes the question to end**: at its end, or before it if a
label starts with a zero byte. -/
theorem answerOffset_asks (hquery : parseUdp data = .ok query) (hasks : Asks data q) :
    ReadWhole query q ∨ (query.answerOffset < header + (question.write q).length ∧
      ∃ l ∈ q.name.labels, Visible l = false) := by
  obtain ⟨after, hasks⟩ := hasks
  obtain ⟨ls, zeroLed, hi, lo, rest, hscanned, -, rfl⟩ := parseUdp_eq_ok_iff.mp hquery
  rw [question_write, List.append_assoc] at hasks
  rw [question_write_length]
  obtain ⟨hls, ⟨rfl, hbytes⟩ | ⟨n, rfl, hn, hle, hbytes⟩⟩ := hscanned.bytes
  · -- the zero byte is the end of the name
    left
    have hname : encodedName.write q.name ++ (u16.write q.qtype ++ u16.write q.qclass ++ after) =
        encodedName.write ⟨ls, .root⟩ ++ (hi :: lo :: rest) := by
      refine hasks.symm.trans (hbytes.trans ?_)
      simp [encodedName, EncodedName.write, Ending.write]
    obtain ⟨hq, htail⟩ := encodedName.write_append_inj hname
    have htype := u16.read_eq_some.mpr (htail.symm.trans (List.append_assoc ..))
    refine ⟨?_, hq ▸ hls, hq ▸ rfl, congrArg RecordType.mk ?_⟩
    · rw [question_write_length, hq]
      simp [nameEnd, EncodedName.write, Ending.write]
      omega
    · exact (Prod.mk.inj (Option.some.inj htype)).1
  · -- the zero byte is the first of a label
    right
    rw [EncodedName.write, List.append_assoc] at hasks
    show nameEnd ls true + 5 < _ ∧ _
    rw [nameEnd, if_pos rfl, EncodedName.write, List.length_append]
    rcases wire_append_eq (hbytes.symm.trans hasks) with ⟨ks, hks, htail⟩ | ⟨ks, -, htail⟩
    · cases ks with
      | nil => exact absurd htail.symm (ending_ne_label hn hle)
      | cons k ks =>
        rw [wire_cons, List.cons_append, List.append_assoc] at htail
        obtain ⟨-, hbytes⟩ := List.cons.inj htail
        obtain ⟨b, bytes, hk⟩ := List.exists_cons_of_length_pos k.pos
        rw [hk, List.cons_append] at hbytes
        obtain ⟨rfl, -⟩ := List.cons.inj hbytes
        obtain ⟨c, cs, hending, -⟩ := q.name.ending.write_head
        refine ⟨?_, k, by simp [hks], by simp [Visible, hk]⟩
        rw [hks, wire_append, wire_cons, hending, hk]
        simp only [List.length_append, List.length_cons]
        omega
    · cases ks with
      | nil => exact absurd htail (ending_ne_label hn hle)
      | cons k ks => exact absurd htail (ending_ne_label k.length_ne_zero (by
          rw [k.length_toNat]
          exact k.le))

/-- The question ends where the scanner takes it to end just if no label starts
with a zero byte. -/
theorem answerOffset_eq_iff (hquery : parseUdp data = .ok query) (hasks : Asks data q) :
    query.answerOffset = header + (question.write q).length ↔
      ∀ l ∈ q.name.labels, Visible l = true := by
  rcases answerOffset_asks hquery hasks with hread | ⟨hoffset, l, hl, hzero⟩
  · exact ⟨fun _ => hread.visible, fun _ => hread.offset⟩
  · constructor
    · intro h
      omega
    · intro hvisible
      rw [hvisible l hl] at hzero
      cases hzero

end Parser

end Denis
