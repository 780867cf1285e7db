import Denis.Handler.Encoding
import Denis.Lib.Utf8
import Denis.Repo.Cache

/-!
# Names on the wire and names as text

What `parse_udp` keeps of the labels of a name is a string, and what it loses
decides which names the block lists and the cache can tell apart.

- Letter case is lost, and nothing that depends on it is left: two packets that
  differ only in it fare alike (`case_insensitive`).
- Labels are told apart as far as they hold no dot byte and are well-formed UTF-8
  (`names_distinguish`). A dot inside a label reads as the dot between two, and
  ill-formed bytes all read as the replacement character (`names_confused`).
-/

namespace Denis

open Text DomainName

namespace Parser

/-- The packet's name decodes to labels none of which starts with a zero byte,
and `rest` follows it. -/
structure WireName (packet : Bytes) (ls : List Label) (rest : Bytes) : Prop where
  decoded : decode (packet.drop header) = some (ls, rest)
  visible : ∀ l ∈ ls, Visible l = true

section WireName

variable {packet rest : Bytes} {ls : List Label}

/-- **`parse_udp` on a packet whose name decodes.** -/
theorem WireName.parseUdp_eq (h : WireName packet ls rest) :
    parseUdp packet = readWire packet ls rest := by
  have hbytes := eq_wire_of_decode h.decoded
  have hhdr : (packet.take header).length = header := header_length (by rw [hbytes]; simp)
  have hparse := @parseUdp_wire _ rest _ hhdr h.visible
  rw [← hbytes, List.take_append_drop] at hparse
  exact hparse

/-- What is read of an accepted one. -/
theorem WireName.query_eq (h : WireName packet ls rest) {q : Query} (hq : parseUdp packet = .ok q) :
    ∃ hi lo after, rest = hi :: lo :: after ∧
      q = ⟨fromUtf8Lossy (dotted ls), ⟨u16FromBeBytes hi lo⟩, packet,
        header + (wire ls).length + 5⟩ := by
  rw [h.parseUdp_eq] at hq
  unfold readWire at hq
  split at hq
  · cases hq
  · split at hq
    · next hi lo after => exact ⟨hi, lo, after, rfl, (Except.ok.inj hq).symm⟩
    · cases hq

/-- Its name. -/
theorem WireName.name_eq (h : WireName packet ls rest) {q : Query} (hq : parseUdp packet = .ok q) :
    q.name = fromUtf8Lossy (dotted ls) := by
  obtain ⟨hi, lo, after, -, rfl⟩ := h.query_eq hq
  rfl

end WireName

/-! ## Letter case -/

/-- Labels that differ in letter case only take the same room. -/
theorem wire_length_of_lower {ls ms : List Label} (h : ls.map Label.lower = ms.map Label.lower) :
    (wire ls).length = (wire ms).length := by
  have hdots (ks : List Label) : dots ks = (ks.map Label.lower).flatMap (· ++ [46]) := by
    rw [List.flatMap_map]
    rfl
  rw [← dots_length, ← dots_length, hdots, hdots, h]

/-- **Letter case never matters.** Two packets whose names decode to the same
labels up to the case of ASCII letters, followed by the same bytes, are refused
with the same error, or read as the same name, type and answer offset; so every
block and allow list decides alike on both, and they share a cache key. -/
theorem case_insensitive {packet₁ packet₂ rest : Bytes} {ls₁ ls₂ : List Label}
    (h₁ : WireName packet₁ ls₁ rest) (h₂ : WireName packet₂ ls₂ rest)
    (hcase : ls₁.map Label.lower = ls₂.map Label.lower) :
    (∃ e, parseUdp packet₁ = .error e ∧ parseUdp packet₂ = .error e) ∨
    ∃ q₁ q₂, parseUdp packet₁ = .ok q₁ ∧ parseUdp packet₂ = .ok q₂ ∧
      q₁.name = q₂.name ∧ q₁.queryType = q₂.queryType ∧ q₁.answerOffset = q₂.answerOffset ∧
      (∀ cache : Cache, cache.isBlocked q₁.name = cache.isBlocked q₂.name) ∧
      ∀ display, Cache.queryKey display q₁ = Cache.queryKey display q₂ := by
  have hlength := wire_length_of_lower hcase
  have hdotted : dotted ls₁ = dotted ls₂ := congrArg [46].intercalate hcase
  rw [h₁.parseUdp_eq, h₂.parseUdp_eq]
  unfold readWire
  rw [hlength, hdotted]
  by_cases hlong : 255 < (wire ls₂).length
  · rw [if_pos hlong, if_pos hlong]
    exact .inl ⟨_, rfl, rfl⟩
  · rw [if_neg hlong, if_neg hlong]
    match rest with
    | [] => exact .inl ⟨_, rfl, rfl⟩
    | [_] => exact .inl ⟨_, rfl, rfl⟩
    | hi :: lo :: _ =>
      exact .inr ⟨_, _, rfl, rfl, rfl, rfl, rfl, fun _ => rfl, fun _ => rfl⟩

/-- The labels `AB` and `cd`. -/
def otherCase : List Label := [twoBytes 65 66, twoBytes 99 100]

/-- `ab.CD A` and `AB.cd A`. -/
theorem mixed_cases_alike :
    (∃ e, parseUdp (queryPacket (List.replicate 12 0) [abLabel, cdLabel] 1 1) = .error e ∧
      parseUdp (queryPacket (List.replicate 12 0) otherCase 1 1) = .error e) ∨
    ∃ q₁ q₂, parseUdp (queryPacket (List.replicate 12 0) [abLabel, cdLabel] 1 1) = .ok q₁ ∧
      parseUdp (queryPacket (List.replicate 12 0) otherCase 1 1) = .ok q₂ ∧
      q₁.name = q₂.name ∧ q₁.queryType = q₂.queryType ∧ q₁.answerOffset = q₂.answerOffset ∧
      (∀ cache : Cache, cache.isBlocked q₁.name = cache.isBlocked q₂.name) ∧
      ∀ display, Cache.queryKey display q₁ = Cache.queryKey display q₂ :=
  @case_insensitive _ _ [0, 1, 0, 1] [abLabel, cdLabel] otherCase
    ⟨by decide +kernel, by decide⟩ ⟨by decide +kernel, by decide⟩ (by decide)

/-! ## Different names -/

/-- Well-formed UTF-8 without a dot byte. -/
def Plain (l : Label) : Prop := 46 ∉ l.bytes ∧ WellFormed l.bytes

/-- The labels of host names are plain. -/
theorem Plain.of_hostname {l : Label} (h : ∀ b ∈ l.bytes, Repo.isHostnameByte b = true) :
    Plain l :=
  ⟨fun hdot => absurd (h 46 hdot) (by decide),
    .of_ascii fun b hb => Repo.isHostnameByte_ascii (h b hb)⟩

theorem lower_dot {l : Label} (h : 46 ∉ l.bytes) : 46 ∉ l.lower := by
  intro hmem
  obtain ⟨b, hb, hlower⟩ := List.mem_map.mp hmem
  have hcode := toAsciiLowercase_toNat b
  rw [hlower] at hcode
  have hdot : (46 : UInt8).toNat = 46 := rfl
  refine h ?_
  have hb' : b = 46 := by
    refine UInt8.toNat_inj.mp ?_
    split at hcode <;> omega
  rwa [← hb']

/-- Labels without dots can be read off the dotted name. -/
theorem dotted_inj {ls ms : List Label} (hls : ∀ l ∈ ls, 46 ∉ l.bytes)
    (hms : ∀ l ∈ ms, 46 ∉ l.bytes) (h : dotted ls = dotted ms) :
    ls.map Label.lower = ms.map Label.lower := by
  -- the pieces between dots are the labels, if there is one
  have hpieces (ks : List Label) (hks : ∀ l ∈ ks, 46 ∉ l.bytes) (hne : ks ≠ []) :
      (dotted ks).splitOn 46 = ks.map Label.lower := by
    refine List.splitOn_intercalate 46 ?_ (by simpa using hne)
    intro piece hpiece
    obtain ⟨l, hl, rfl⟩ := List.mem_map.mp hpiece
    exact lower_dot (hks l hl)
  have hnil (ks : List Label) : dotted ks = [] → ks = [] := by
    intro hdotted
    cases ks with
    | nil => rfl
    | cons k ks =>
      have hpos := k.pos
      have hlength := congrArg List.length hdotted
      by_cases hks : ks = []
      · subst hks
        rw [dotted_singleton, Label.lower_length, List.length_nil] at hlength
        omega
      · rw [dotted_cons hks] at hlength
        simp at hlength
  by_cases hls' : ls = []
  · subst hls'
    rw [hnil ms h.symm]
  · have hms' : ms ≠ [] := by
      rintro rfl
      exact hls' (hnil ls h)
    rw [← hpieces ls hls hls', ← hpieces ms hms hms', h]

/-- The texts of plain names tell their labels apart. -/
theorem plain_names_inj {ls ms : List Label} (hls : ∀ l ∈ ls, Plain l) (hms : ∀ l ∈ ms, Plain l)
    (h : fromUtf8Lossy (dotted ls) = fromUtf8Lossy (dotted ms)) :
    ls.map Label.lower = ms.map Label.lower := by
  have hwell (ks : List Label) (hks : ∀ l ∈ ks, Plain l) : WellFormed (dotted ks) := by
    refine WellFormed.intercalate (by decide) ?_
    intro piece hpiece
    obtain ⟨l, hl, rfl⟩ := List.mem_map.mp hpiece
    exact (hks l hl).2.lower
  exact dotted_inj (fun l hl => (hls l hl).1) (fun l hl => (hms l hl).1)
    (WellFormed.inj (hwell ls hls) (hwell ms hms) h)

/-- **Different plain names stay different**: if two accepted packets whose
labels hold no dot byte and are well-formed UTF-8 are read as the same name, then
their labels are the same up to letter case. -/
theorem names_distinguish {packet₁ packet₂ rest₁ rest₂ : Bytes} {ls₁ ls₂ : List Label}
    {q₁ q₂ : Query} (hq₁ : parseUdp packet₁ = .ok q₁) (hq₂ : parseUdp packet₂ = .ok q₂)
    (h₁ : WireName packet₁ ls₁ rest₁) (h₂ : WireName packet₂ ls₂ rest₂)
    (hplain₁ : ∀ l ∈ ls₁, Plain l) (hplain₂ : ∀ l ∈ ls₂, Plain l) (hname : q₁.name = q₂.name) :
    ls₁.map Label.lower = ls₂.map Label.lower := by
  rw [h₁.name_eq hq₁, h₂.name_eq hq₂] at hname
  exact plain_names_inj hplain₁ hplain₂ hname

/-- An address query for a name. -/
def addressQuery (ls : List Label) : Bytes := queryPacket (List.replicate 12 0) ls 1 1

/-- `ab.CD` and `AB.cd` are read as one name, and are one name. -/
theorem mixed_cases_same_labels :
    [abLabel, cdLabel].map Label.lower = otherCase.map Label.lower := by
  have hhost : ∀ l ∈ [abLabel, cdLabel] ++ otherCase, ∀ b ∈ l.bytes, Repo.isHostnameByte b = true :=
    by decide +kernel
  have hplain : ∀ l ∈ [abLabel, cdLabel], Plain l := fun l hl =>
    .of_hostname (hhost l (List.mem_append_left _ hl))
  have hplain' : ∀ l ∈ otherCase, Plain l := fun l hl =>
    .of_hostname (hhost l (List.mem_append_right _ hl))
  exact @names_distinguish (addressQuery [abLabel, cdLabel]) (addressQuery otherCase)
    [0, 1, 0, 1] [0, 1, 0, 1] [abLabel, cdLabel] otherCase
    ⟨['a', 'b', '.', 'c', 'd'], ⟨1⟩, addressQuery [abLabel, cdLabel], 23⟩
    ⟨['a', 'b', '.', 'c', 'd'], ⟨1⟩, addressQuery otherCase, 23⟩
    (by decide +kernel) (by decide +kernel) ⟨by decide +kernel, by decide⟩
    ⟨by decide +kernel, by decide⟩ hplain hplain' rfl

/-- The address queries for two names are read as one name, though their labels
differ in more than letter case. -/
def Confused (ls₁ ls₂ : List Label) : Prop :=
  ∃ q₁ q₂ rest₁ rest₂, parseUdp (addressQuery ls₁) = .ok q₁ ∧
    parseUdp (addressQuery ls₂) = .ok q₂ ∧ WireName (addressQuery ls₁) ls₁ rest₁ ∧
    WireName (addressQuery ls₂) ls₂ rest₂ ∧ q₁.name = q₂.name ∧
    ls₁.map Label.lower ≠ ls₂.map Label.lower

/-- The label of one byte. -/
def oneByte (b : UInt8) : Label := ⟨[b], Nat.one_pos, by simp⟩

/-- The one label `a.b`. -/
def dotInside : List Label := [⟨[97, 46, 98], by decide, by decide⟩]

/-- The labels `a` and `b`. -/
def dotBetween : List Label := [oneByte 97, oneByte 98]

/-- **Dots inside labels and ill-formed bytes are confused.** -/
theorem names_confused :
    Confused dotInside dotBetween ∧ Confused [oneByte 0xFF] [oneByte 0xFE] := by
  refine ⟨⟨⟨['a', '.', 'b'], ⟨1⟩, addressQuery dotInside, 21⟩,
      ⟨['a', '.', 'b'], ⟨1⟩, addressQuery dotBetween, 21⟩, [0, 1, 0, 1], [0, 1, 0, 1], ?_⟩,
    ⟨[replacementCharacter], ⟨1⟩, addressQuery [oneByte 0xFF], 19⟩,
      ⟨[replacementCharacter], ⟨1⟩, addressQuery [oneByte 0xFE], 19⟩, [0, 1, 0, 1],
      [0, 1, 0, 1], ?_⟩
  · exact ⟨by decide +kernel, by decide +kernel, ⟨by decide +kernel, by decide⟩,
      ⟨by decide +kernel, by decide⟩, rfl, by decide⟩
  · exact ⟨by decide +kernel, by decide +kernel, ⟨by decide +kernel, by decide⟩,
      ⟨by decide +kernel, by decide⟩, rfl, by decide⟩

end Parser

end Denis
