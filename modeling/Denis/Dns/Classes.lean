import Denis.Dns.Attribution
import Denis.Handler.Names

/-!
# Questions and the cache

A question on the wire is a name, a type and a class. The parser does not read
the class and the key does not hold it, so of the three a cache hit is for the
same name and the same type (`hits_for_name_and_type`), but not for the same
class (`hit_across_classes`).
-/

namespace Denis

open Text DomainName

/-- The question of a packet: the labels in lower case, the bytes of the type
and those of the class, as far as the packet has them. -/
structure Question where
  labels : List Bytes
  qtype : Bytes
  qclass : Bytes
  deriving DecidableEq

/-- The question of the packet a query was read from. -/
def Query.question (q : Query) : Option Question :=
  (decode (q.raw.drop Parser.header)).map fun (ls, rest) =>
    ⟨ls.map Label.lower, rest.take 2, (rest.drop 2).take 2⟩

/-- A query for labels of a host name whose key is not cut. -/
structure Query.Ordinary (display : RecordType → Str) (q : Query) : Prop where
  hostname : ∃ ls rest, decode (q.raw.drop Parser.header) = some (ls, rest) ∧
    ∀ l ∈ ls, ∀ b ∈ l.bytes, Repo.isHostnameByte b = true
  fits : len q.name + 5 + len (display q.queryType) ≤ 128

/-- The questions are for the same name and type. -/
def SameNameAndType (q₁ q₂ : Query) : Prop :=
  ∃ x₁ x₂, q₁.question = some x₁ ∧ q₂.question = some x₂ ∧ x₁.labels = x₂.labels ∧
    x₁.qtype = x₂.qtype

/-- The questions are the same. -/
def SameWireQuestion (q₁ q₂ : Query) : Prop := ∃ x, q₁.question = some x ∧ q₂.question = some x

section Ordinary

variable {display : RecordType → Str} {q q₁ q₂ : Query}

/-- A query of an uncut key is read from a packet of its question. -/
theorem Query.Ordinary.read (h : q.Ordinary display) (hq : Parser.parseUdp q.raw = .ok q) :
    ∃ ls hi lo, ∃ after : Bytes, (∀ l ∈ ls, Parser.Plain l) ∧ q.name = fromUtf8Lossy (dotted ls) ∧
      q.queryType = ⟨Parser.u16FromBeBytes hi lo⟩ ∧
      q.question = some ⟨ls.map Label.lower, [hi, lo], after.take 2⟩ := by
  obtain ⟨ls, rest, hdecode, hhost⟩ := h.hostname
  have hwire : Parser.WireName q.raw ls rest :=
    ⟨hdecode, fun l hl => (HostLabel.of_bytes (hhost l hl)).visible⟩
  obtain ⟨hi, lo, after, rfl, hquery⟩ := hwire.query_eq hq
  refine ⟨ls, hi, lo, after, fun l hl => .of_hostname (hhost l hl), hwire.name_eq hq, ?_, ?_⟩
  · rw [hquery]
  · rw [Query.question, hdecode]
    rfl

/-- Uncut keys that are the same have the same name and text of the type. -/
theorem eq_of_uncut_keys (hcolon : ∀ t, ':' ∉ display t) (h₁ : q₁.Ordinary display)
    (h₂ : q₂.Ordinary display) (hkey : Cache.queryKey display q₁ = Cache.queryKey display q₂) :
    q₁.name = q₂.name ∧ display q₁.queryType = display q₂.queryType := by
  have hfits₁ := h₁.fits
  have hfits₂ := h₂.fits
  have hkept {q : Query} (hq : q.Ordinary display) :
      Cache.keptType display q = display q.queryType := if_pos hq.fits
  rcases (Cache.queryKey_eq_iff hcolon q₁ q₂).mp hkey with ⟨hlong, -⟩ | ⟨hname, htype⟩ | h | h
  · omega
  · rw [hkept h₁, hkept h₂] at htype
    exact ⟨hname, htype⟩
  · have := h.lens
    omega
  · have := h.lens
    omega

/-- Queries of one name and type ask for the same name and type on the wire. -/
theorem sameNameAndType_of_eq (h₁ : q₁.Ordinary display) (h₂ : q₂.Ordinary display)
    (hq₁ : Parser.parseUdp q₁.raw = .ok q₁) (hq₂ : Parser.parseUdp q₂.raw = .ok q₂)
    (hname : q₁.name = q₂.name) (htype : q₁.queryType = q₂.queryType) :
    SameNameAndType q₁ q₂ := by
  obtain ⟨ls₁, hi₁, lo₁, after₁, hplain₁, hname₁, htype₁, hquestion₁⟩ := h₁.read hq₁
  obtain ⟨ls₂, hi₂, lo₂, after₂, hplain₂, hname₂, htype₂, hquestion₂⟩ := h₂.read hq₂
  refine ⟨_, _, hquestion₁, hquestion₂, ?_, ?_⟩
  · rw [hname₁, hname₂] at hname
    exact Parser.plain_names_inj hplain₁ hplain₂ hname
  · rw [htype₁, htype₂] at htype
    obtain ⟨rfl, rfl⟩ := Parser.u16FromBeBytes_inj (RecordType.mk.inj htype)
    rfl

end Ordinary

/-- A query that was asked is what its own bytes are parsed to. -/
theorem Asked.parsed {es : List Input} {q : Query} (h : Asked es q) :
    Parser.parseUdp q.raw = .ok q := by
  obtain ⟨client, packet, clock, -, hparse⟩ := h
  rwa [Parser.parseUdp_raw hparse]

namespace Server

variable {display : RecordType → Str} {es : List Input}

/-- **Hits are for the same name and type.** In every run whose queries are
ordinary and whose types, of those asked for, have texts of their own, without
`:`, each hit answers with bytes received for a query of the run with the same
labels, up to letter case, and the same type; and of the same class, if no name
and type is asked for in two classes. -/
theorem hits_for_name_and_type {runtime : Runtime} {acl : Acl} {config : RuntimeConfig}
    {blockList allowList : DomainSet} {t : Server} {outs : List Output}
    (hcolon : ∀ t, ':' ∉ display t)
    (htexts : ∀ q₁ q₂, Asked es q₁ → Asked es q₂ →
      display q₁.queryType = display q₂.queryType → q₁.queryType = q₂.queryType)
    (hordinary : ∀ q, Asked es q → q.Ordinary display)
    (hrun : (machine display).run (start runtime acl config blockList allowList) es =
      some (t, outs)) :
    Machine.Justified (Output.Attributed es SameNameAndType) outs ∧
    ((∀ q₁ q₂, Asked es q₁ → Asked es q₂ → SameNameAndType q₁ q₂ → SameWireQuestion q₁ q₂) →
      Machine.Justified (Output.Attributed es SameWireQuestion) outs) := by
  have hkeys : ∀ q₁ q₂, Asked es q₁ → Asked es q₂ →
      Cache.queryKey display q₁ = Cache.queryKey display q₂ → SameNameAndType q₁ q₂ := by
    intro q₁ q₂ h₁ h₂ hkey
    obtain ⟨hname, htext⟩ := eq_of_uncut_keys hcolon (hordinary q₁ h₁) (hordinary q₂ h₂) hkey
    exact sameNameAndType_of_eq (hordinary q₁ h₁) (hordinary q₂ h₂) h₁.parsed h₂.parsed hname
      (htexts q₁ q₂ h₁ h₂ htext)
  refine ⟨hits_attributed hkeys hrun, fun hclasses => hits_attributed ?_ hrun⟩
  intro q₁ q₂ h₁ h₂ hkey
  exact hclasses q₁ q₂ h₁ h₂ (hkeys q₁ q₂ h₁ h₂ hkey)

/-- The labels `ab` and `cd`. -/
def Sample.hostLabels : List Label := [Parser.twoBytes 97 98, Parser.twoBytes 99 100]

/-- Queries for them are ordinary. -/
theorem Sample.ordinary {q : Query} {rest : Bytes}
    (hdecode : decode (q.raw.drop Parser.header) = some (Sample.hostLabels, rest))
    (hfits : len q.name + 5 + len (Sample.display q.queryType) ≤ 128) :
    q.Ordinary Sample.display :=
  ⟨⟨Sample.hostLabels, rest, hdecode, by decide +kernel⟩, hfits⟩

/-- Two clients that ask for `ab.cd A IN`. -/
theorem same_class_hits_own : ∃ t outs,
    (machine Sample.display).run (start .tokio ⟨[]⟩ Sample.config ∅ ∅)
      [Sample.ask (Sample.client .tokioUdp 1) 7 0, Sample.answered 7 0,
        Sample.ask (Sample.client .tokioUdp 2) 9 1] = some (t, outs) ∧
    .reply (Sample.reply (Sample.client .tokioUdp 2) 9 1 true) ∈ outs ∧
    Machine.Justified (Output.Attributed [Sample.ask (Sample.client .tokioUdp 1) 7 0,
      Sample.answered 7 0, Sample.ask (Sample.client .tokioUdp 2) 9 1] SameWireQuestion) outs := by
  obtain ⟨⟨t, outs⟩, hrun, hmem⟩ := Option.map_eq_some_iff.mp
    (show ((machine Sample.display).run (start .tokio ⟨[]⟩ Sample.config ∅ ∅)
      [Sample.ask (Sample.client .tokioUdp 1) 7 0, Sample.answered 7 0,
        Sample.ask (Sample.client .tokioUdp 2) 9 1]).map (fun p =>
          decide (.reply (Sample.reply (Sample.client .tokioUdp 2) 9 1 true) ∈ p.2)) = some true
      by decide +kernel)
  refine ⟨t, outs, hrun, of_decide_eq_true hmem,
    (hits_for_name_and_type Sample.display_colon (fun _ _ _ _ h => Sample.display_injective h)
      (fun q h => ?_) hrun).2 fun q₁ q₂ h₁ h₂ _ => ?_⟩
  · rcases asked_twice h with rfl | rfl
    · exact @Sample.ordinary (Sample.query 7) [0, 1, 0, 1] (by decide +kernel) (by decide +kernel)
    · exact @Sample.ordinary (Sample.query 9) [0, 1, 0, 1] (by decide +kernel) (by decide +kernel)
  · refine ⟨⟨[[97, 98], [99, 100]], [0, 1], [0, 1]⟩, ?_⟩
    rcases asked_twice h₁ with rfl | rfl <;> rcases asked_twice h₂ with rfl | rfl <;>
      decide +kernel

/-- A query for `ab.cd A CH`. -/
def Sample.chaosQuery : Query :=
  ⟨['a', 'b', '.', 'c', 'd'], RecordType.a,
    [0, 9, 1, 0, 0, 1, 0, 0, 0, 0, 0, 0] ++ Sample.name ++ [0, 0, 1, 0, 3], 23⟩

/-- One client asks in class IN, the next, once that is answered, in class CH. -/
def Sample.twoClasses : List Input :=
  [Sample.ask (Sample.client .tokioUdp 1) 7 0, Sample.answered 7 0,
    .message (Sample.client .tokioUdp 2) Sample.chaosQuery.raw (Sample.clock 1)]

/-- The hit of the second client on the answer to the first. -/
def Sample.crossHit : Reply :=
  ⟨Sample.client .tokioUdp 2, Sample.chaosQuery.raw, Sample.answer 9 Sample.name,
    some ⟨0, ['a', 'b', '.', 'c', 'd'], 1, 0, true, false, 0⟩, 1000000000⟩

theorem asked_in_two_classes {q : Query} (h : Asked Sample.twoClasses q) :
    q = Sample.query 7 ∨ q = Sample.chaosQuery :=
  asked_of_two (by decide +kernel) (by decide +kernel) h

/-- **A hit on the answer for another class**, in a run of ordinary queries. -/
theorem hit_across_classes :
    (∀ q, Asked Sample.twoClasses q → q.Ordinary Sample.display) ∧
    ∃ t outs, (machine Sample.display).run (start .tokio ⟨[]⟩ Sample.config ∅ ∅)
      Sample.twoClasses = some (t, outs) ∧
    ¬ Machine.Justified (Output.Attributed Sample.twoClasses SameWireQuestion) outs := by
  refine ⟨fun q h => ?_, ?_⟩
  · rcases asked_in_two_classes h with rfl | rfl
    · exact @Sample.ordinary (Sample.query 7) [0, 1, 0, 1] (by decide +kernel) (by decide +kernel)
    · exact @Sample.ordinary Sample.chaosQuery [0, 1, 0, 3] (by decide +kernel)
        (by decide +kernel)
  · obtain ⟨⟨t, outs⟩, hrun, houts⟩ := Option.map_eq_some_iff.mp
      (show ((machine Sample.display).run (start .tokio ⟨[]⟩ Sample.config ∅ ∅)
        Sample.twoClasses).map Prod.snd = some
          [.forward (Sample.client .tokioUdp 1) (Sample.query 7),
            .received (Sample.receipt 7 0),
            .reply (Sample.reply (Sample.client .tokioUdp 1) 7 0 false), .reply Sample.crossHit]
        by decide +kernel)
    obtain rfl := houts
    refine ⟨t, _, hrun, fun hjustified => ?_⟩
    -- the one response received before the hit is the answer to the query of class IN
    obtain ⟨rc, query, hmem, -, -, -, hparse, x, hx, hx'⟩ :=
      hjustified [.forward _ _, .received _, .reply _] (.reply Sample.crossHit) [] rfl _ rfl rfl
    have hrc : rc = Sample.receipt 7 0 := by simpa using hmem
    have hquery : query = Sample.chaosQuery := by
      rw [show Parser.parseUdp _ = .ok Sample.chaosQuery by decide +kernel] at hparse
      exact (Except.ok.inj hparse).symm
    rw [hrc] at hx
    rw [hquery] at hx'
    exact absurd (hx.trans hx'.symm) (by decide +kernel)

end Server

end Denis
