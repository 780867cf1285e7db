import Denis.Dns.Classes
import Denis.Dns.Replayed

/-!
# The letters of a cached reply

A query is looked up by its name in lower case, while the bytes stored have the
name as the query that fetched them spelled it, and of these only the id is patched.
So a reply from the cache repeats the name letter for letter just if it was fetched
for a query that spelled it so (`hits_repeat_iff`), and two clients that mix cases
differently see each other's (`hit_in_other_letters`). Blocked and relayed replies
repeat the client's own letters.
-/

namespace Denis

open Text DomainName

/-- The bytes of the name asked for, with the ending zero byte. -/
def Query.qname (q : Query) : Bytes :=
  (q.raw.drop Parser.header).take (q.answerOffset - 4 - Parser.header)

/-- The reply has the query's name at offset 12. -/
def RepeatsName (q : Query) (raw : Bytes) : Prop := q.qname <+: raw.drop Parser.header

instance (q : Query) (raw : Bytes) : Decidable (RepeatsName q raw) :=
  inferInstanceAs (Decidable (_ <+: _))

/-! ## The name in a query and in its key -/

section Ordinary

variable {display : RecordType → Str} {q q₁ q₂ : Query}

/-- An ordinary query spells the labels of its name. -/
theorem Query.Ordinary.spelled (h : q.Ordinary display) (hq : Parser.parseUdp q.raw = .ok q) :
    ∃ ls, (∀ l ∈ ls, HostLabel l) ∧ (∀ l ∈ ls, Parser.Plain l) ∧
      q.name = fromUtf8Lossy (dotted ls) ∧ q.qname.length = (wire ls).length + 1 := by
  obtain ⟨ls, rest, hdecode, hhost⟩ := h.hostname
  have hwire : Parser.WireName q.raw ls rest :=
    ⟨hdecode, fun l hl => (HostLabel.of_bytes (hhost l hl)).visible⟩
  obtain ⟨hi, lo, after, rfl, hquery⟩ := hwire.query_eq hq
  refine ⟨ls, fun l hl => .of_bytes (hhost l hl), fun l hl => .of_hostname (hhost l hl),
    hwire.name_eq hq, ?_⟩
  have hoffset : q.answerOffset = Parser.header + (wire ls).length + 5 := by rw [hquery]
  rw [Query.qname, eq_wire_of_decode hdecode, hoffset, List.length_take, List.length_append,
    List.length_cons]
  omega

/-- Names of host labels hold no `:`. -/
theorem colon_not_mem {ls : List Label} (hls : ∀ l ∈ ls, HostLabel l) :
    ':' ∉ fromUtf8Lossy (dotted ls) := by
  rw [fromUtf8Lossy_ascii (dotted_ascii hls)]
  intro hmem
  obtain ⟨b, hb, hchar⟩ := List.mem_map.mp hmem
  have hcode : b.toNat = 58 := by
    rw [← charOf_toNat, hchar]
    rfl
  obtain rfl : b = 58 := UInt8.toNat_inj.mp hcode
  obtain ⟨piece, hpiece, hb⟩ := mem_of_mem_intercalate hb (by decide)
  obtain ⟨l, hl, rfl⟩ := List.mem_map.mp hpiece
  exact absurd (hls l hl 58 hb) (by decide)

/-- Up to a separator that the beginnings do not hold, equal texts are equal. -/
theorem eq_of_append_sep {α : Type} {sep : α} {xs ys s t : List α} (hx : sep ∉ xs)
    (hy : sep ∉ ys) (h : xs ++ sep :: s = ys ++ sep :: t) : xs = ys := by
  -- read backwards, the beginnings are the ends
  have hreverse : s.reverse ++ sep :: xs.reverse = t.reverse ++ sep :: ys.reverse := by
    simpa using congrArg List.reverse h
  have hends := Cache.eq_of_append_cons (by simpa using hx) (by simpa using hy) hreverse
  exact List.reverse_injective hends.2

/-- **Ordinary queries of one key spell one name**, in whatever letters: their names
take the same room. -/
theorem qname_length_of_key (h₁ : q₁.Ordinary display) (h₂ : q₂.Ordinary display)
    (hq₁ : Parser.parseUdp q₁.raw = .ok q₁) (hq₂ : Parser.parseUdp q₂.raw = .ok q₂)
    (hkey : Cache.queryKey display q₁ = Cache.queryKey display q₂) :
    q₁.qname.length = q₂.qname.length := by
  have hfull {q : Query} (hq : q.Ordinary display) : Cache.queryKey display q =
      ['d', 'n', 's', ':'] ++ (q.name ++ ':' :: display q.queryType) := by
    have hfits := hq.fits
    rw [Cache.queryKey_eq, if_neg (by omega), if_neg (by omega), Cache.keptType,
      if_pos hq.fits]
    simp
  obtain ⟨ls₁, hhost₁, hplain₁, hname₁, hlength₁⟩ := h₁.spelled hq₁
  obtain ⟨ls₂, hhost₂, hplain₂, hname₂, hlength₂⟩ := h₂.spelled hq₂
  rw [hfull h₁, hfull h₂, List.append_cancel_left_eq] at hkey
  have hname : q₁.name = q₂.name :=
    eq_of_append_sep (hname₁ ▸ colon_not_mem hhost₁) (hname₂ ▸ colon_not_mem hhost₂) hkey
  rw [hname₁, hname₂] at hname
  rw [hlength₁, hlength₂,
    Parser.wire_length_of_lower (Parser.plain_names_inj hplain₁ hplain₂ hname)]

end Ordinary

/-! ## Replies that repeat the name -/

section Repeats

variable {q : Query} {raw : Bytes}

/-- A reply that goes on like the query repeats its name. -/
theorem repeatsName_of_question
    (h : (UpstreamResponse.question q).drop Parser.header <+: raw.drop Parser.header) :
    RepeatsName q raw := by
  refine List.IsPrefix.trans ?_ h
  refine List.prefix_of_prefix_length_le (List.take_prefix _ (q.raw.drop Parser.header)) ?_ ?_
  · rw [UpstreamResponse.question, List.drop_take]
    exact List.take_prefix ..
  · rw [Query.qname, UpstreamResponse.question, List.length_take, List.length_drop,
      List.length_drop, List.length_take]
    omega

theorem repeatsName_blocked (hq : q.Bounded) (mode : BlockingMode) :
    RepeatsName q (UpstreamResponse.blocked q mode).raw :=
  repeatsName_of_question (UpstreamResponse.blocked_question hq mode)

/-- Patching the id leaves the name. -/
theorem repeatsName_cached {q' : Query} :
    RepeatsName q (UpstreamResponse.cached q' raw).raw ↔ RepeatsName q raw := by
  have hdrop : (UpstreamResponse.cached q' raw).raw.drop Parser.header =
      raw.drop Parser.header := by
    have h := congrArg (List.drop 10) (UpstreamResponse.cached_drop q' raw)
    rwa [List.drop_drop, List.drop_drop] at h
  rw [RepeatsName, RepeatsName, hdrop]

/-- A response that echoes the question, as far as it is received, repeats the name. -/
theorem repeatsName_echo (hq : q.Bounded) {bytes : Bytes}
    (h : (q.raw.drop Parser.header).take (q.answerOffset - Parser.header) <+:
      bytes.drop Parser.header) : RepeatsName q (exchangeResponse bytes).raw := by
  have hhigh := hq.high
  have hecho : q.qname <+: bytes.drop Parser.header :=
    (List.take_prefix_take_left (by omega)).trans h
  have hlength : q.qname.length ≤ upstreamRecvBuf - Parser.header := by
    rw [Query.qname, List.length_take, upstreamRecvBuf, Parser.header]
    omega
  show _ <+: (bytes.take upstreamRecvBuf).drop Parser.header
  rw [List.drop_take]
  exact List.prefix_take_iff.mpr ⟨hecho, hlength⟩

end Repeats

namespace Levels

/-- An upstream that answers a call echoes the question bytes it was sent. -/
def echoes (s : Levels) : Input → Bool
  | .datagram i _ _ bytes _ =>
    match s.calls[i]? with
    | some (.resolve query) =>
      ((query.1.raw.drop Parser.header).take (query.1.answerOffset - Parser.header)).isPrefixOf
        (bytes.drop Parser.header)
    | _ => true
  | _ => true

/-- A reply from the cache repeats the client's name. -/
def Output.HitRepeats : Output → Prop
  | .answered query raw source _ => source.stored ≠ none → RepeatsName query.1 raw
  | _ => True

/-- An upstream response repeats the name of the query it was accepted for. -/
def Output.ReceiptRepeats : Output → Prop
  | .received query raw _ => RepeatsName query.1 raw
  | _ => True

/-- An answer from the cache was fetched by a query that spells the name in the same
letters. -/
def SpelledAlike (display : RecordType → Str) (history : List Output) : Output → Prop
  | .answered query _ source _ => ∀ stored, source.stored = some stored →
      ∃ query' time, .received query' stored time ∈ history ∧
        key display query' = key display query ∧ query'.1.qname = query.1.qname
  | _ => True

variable {display : RecordType → Str} {s s' : Levels} {e : Input} {es : List Input}
  {outs out : List Output}

/-- **Step lemma**: where upstreams echo, what is received repeats the name. -/
theorem step_receipts (hechoes : s.echoes e = true) (h : s.step display e = some (s', out)) :
    ∀ o ∈ out, o.ReceiptRepeats := by
  intro o ho
  cases o with
  | received query raw time =>
    cases step_transition h with
    | @received i server src bytes clock query' new out' s' hcall _ _ _ hrest =>
      have hreceipt : RepeatsName query'.1 (exchangeResponse bytes).raw := by
        rw [echoes, hcall] at hechoes
        exact repeatsName_echo (Parser.parseUdp_bounded query'.2)
          (List.isPrefixOf_iff_prefix.mp hechoes)
      rcases List.mem_append.mp ho with ho | ho
      · rcases List.mem_cons.mp ho with ho | ho
        · obtain ⟨rfl, rfl, -⟩ := Output.received.inj ho
          exact hreceipt
        · obtain ⟨ttl, -, ho⟩ := mem_insertion.mp ho
          cases ho
      · rcases hrest with ⟨-, rfl⟩ | ⟨_, -, -, rfl⟩ <;> simp at ho
    | hit =>
      rcases List.mem_append.mp ho with ho | ho
      · obtain ⟨ttl, -, ho⟩ := mem_insertion.mp ho
        cases ho
      · simp at ho
    | promoted =>
      rcases List.mem_append.mp ho with ho | ho
      · obtain ⟨ttl, -, ho⟩ := mem_insertion.mp ho
        cases ho
      · simp at ho
    | _ => simp at ho
  | _ => trivial

/-- **Run lemma.** -/
theorem run_receipts {redisOn : Bool} {config : RuntimeConfig} {blockList allowList : DomainSet}
    {t : Levels}
    (hrun : (machine display).run (start redisOn config blockList allowList) es =
      some (t, outs))
    (hechoes : (machine display).Along (fun s e => s.echoes e = true)
      (start redisOn config blockList allowList) es) :
    ∀ o ∈ outs, o.ReceiptRepeats := by
  refine Machine.run_history (M := machine display) (J := fun h _ => ∀ o ∈ h, o.ReceiptRepeats)
    (fun h s e s' out hj he hs o ho => ?_) (h := []) (by simp) hechoes hrun
  rcases List.mem_append.mp ho with ho | ho
  · exact hj o ho
  · exact step_receipts he hs o ho

/-- **Cached replies repeat the client's letters** just in the runs whose every hit is
on an answer fetched by a query in the same letters; the other replies always do. -/
theorem hits_repeat_iff {redisOn : Bool} {config : RuntimeConfig}
    {blockList allowList : DomainSet} {t : Levels}
    (hordinary : ∀ query, Asked es query → query.1.Ordinary display)
    (hrun : (machine display).run (start redisOn config blockList allowList) es =
      some (t, outs))
    (hechoes : (machine display).Along (fun s e => s.echoes e = true)
      (start redisOn config blockList allowList) es) :
    ((∀ o ∈ outs, o.HitRepeats) ↔ Machine.Justified (SpelledAlike display) outs) ∧
      ∀ query raw source time, .answered query raw source time ∈ outs → source.stored = none →
        RepeatsName query.1 raw := by
  obtain ⟨-, hexplained, hreplayed⟩ := run_explained hrun
  have hreceipts := run_receipts hrun hechoes
  refine ⟨⟨fun hhits pre x post heq => ?_, fun halike o ho => ?_⟩, ?_⟩
  · cases x with
    | answered query raw source time =>
      intro stored hstored
      have hmem : .answered query raw source time ∈ outs := by simp [heq]
      obtain ⟨⟨query', time', hreceived, hasked', hkey⟩, -, rfl⟩ :=
        hreplayed pre _ post heq stored hstored
      have hmem' : .received query' stored time' ∈ outs := by simp [heq, hreceived]
      refine ⟨query', time', hreceived, hkey, ?_⟩
      have hhit : RepeatsName query.1 stored :=
        repeatsName_cached.mp (hhits _ hmem (by simp [hstored]))
      have hlength := qname_length_of_key (hordinary _ hasked')
        (hordinary _ (hexplained _ hmem).1) query'.2 query.2 hkey
      -- two beginnings of one length
      exact List.prefix_of_prefix_length_le (hreceipts _ hmem') hhit (Nat.le_of_eq hlength)
        |>.eq_of_length hlength
    | _ => trivial
  · cases o with
    | answered query raw source time =>
      intro hsource
      obtain ⟨stored, hstored⟩ := Option.ne_none_iff_exists'.mp hsource
      obtain ⟨pre, post, rfl⟩ := List.append_of_mem ho
      obtain ⟨-, -, rfl⟩ := hreplayed pre _ post rfl stored hstored
      obtain ⟨query', time', hreceived, -, hname⟩ := halike pre _ post rfl stored hstored
      have hrepeats : RepeatsName query'.1 stored :=
        hreceipts (.received query' stored time') (by simp [hreceived])
      rw [RepeatsName, hname] at hrepeats
      exact repeatsName_cached.mpr hrepeats
    | _ => trivial
  · intro query raw source time hmem hsource
    obtain ⟨-, hmade⟩ := hexplained _ hmem
    cases source with
    | blocked =>
      obtain ⟨mode, rfl⟩ := hmade
      exact repeatsName_blocked (Parser.parseUdp_bounded query.2) mode
    | upstream =>
      obtain ⟨time', hreceived⟩ := hmade
      exact hreceipts _ hreceived
    | l1 entry => cases hsource
    | redis value => cases hsource

end Levels

namespace Sample

/-- The name `AB.cd` on the wire. -/
def mixedName : Bytes := [2, 65, 66, 2, 99, 100]

/-- A query for it, as parsed. -/
def mixedQuery (id : UInt8) : Query := { query id with raw := packet id mixedName }

/-- The query of the second client below. -/
def mixedAsking : ParsedQuery := ⟨mixedQuery 9, by decide +kernel⟩

/-- One client's query, the answer to it, and another client's. -/
def twice (second : Bytes) : List Levels.Input :=
  [.handle (packet 7 name) (clock 0),
    .datagram 0 resolver resolver (answer 7 name) (clock 0), .classify second (clock 1)]

end Sample

namespace Levels

/-- Who asks in such a run. -/
theorem asked_of_twice {second : Bytes} {q : Query} (hsecond : Parser.parseUdp second = .ok q)
    {query : ParsedQuery} (h : Asked (Sample.twice second) query) :
    query.1 = Sample.query 7 ∨ query.1 = q := by
  obtain ⟨e, he, hposes⟩ := h
  have hfirst : Parser.parseUdp (Sample.packet 7 Sample.name) = .ok (Sample.query 7) := by
    decide +kernel
  cases hposes with
  | classify hparse =>
    simp only [Sample.twice, List.mem_cons, Input.classify.injEq, List.not_mem_nil, reduceCtorEq,
      false_or, or_false] at he
    rw [he.1, hsecond] at hparse
    exact .inr (Except.ok.inj hparse).symm
  | handle hparse =>
    simp only [Sample.twice, List.mem_cons, Input.handle.injEq, List.not_mem_nil, reduceCtorEq,
      or_false] at he
    rw [he.1, hfirst] at hparse
    exact .inl (Except.ok.inj hparse).symm

/-- Both queries are ordinary. -/
theorem ordinary_of_twice {second : Bytes} {q : Query} (hsecond : Parser.parseUdp second = .ok q)
    (hq : q.Ordinary Sample.display) {query : ParsedQuery}
    (h : Asked (Sample.twice second) query) : query.1.Ordinary Sample.display := by
  rcases asked_of_twice hsecond h with h | h
  · rw [h]
    exact @Server.Sample.ordinary (Sample.query 7) [0, 1, 0, 1] (by decide +kernel)
      (by decide +kernel)
  · rw [h]
    exact hq

/-- **A hit in other letters**: `ab.cd` is fetched, and a query for `AB.cd` is answered
with `ab.cd`. -/
theorem hit_in_other_letters :
    (∀ query, Asked (Sample.twice (Sample.packet 9 Sample.mixedName)) query →
      query.1.Ordinary Sample.display) ∧
    (machine Sample.display).Along (fun s e => s.echoes e = true)
      (start false Sample.config ∅ ∅) (Sample.twice (Sample.packet 9 Sample.mixedName)) ∧
    ∃ t outs, (machine Sample.display).run (start false Sample.config ∅ ∅)
      (Sample.twice (Sample.packet 9 Sample.mixedName)) = some (t, outs) ∧
        ¬ ∀ o ∈ outs, o.HitRepeats := by
  have hordinary : (Sample.mixedQuery 9).Ordinary Sample.display :=
    ⟨⟨[Parser.twoBytes 65 66, Parser.twoBytes 99 100], [0, 1, 0, 1], by decide +kernel,
      by decide +kernel⟩, by decide +kernel⟩
  refine ⟨fun query h => ordinary_of_twice Sample.mixedAsking.2 hordinary h, by decide +kernel, ?_⟩
  obtain ⟨⟨t, outs⟩, hrun, houts⟩ := Option.map_eq_some_iff.mp
    (show ((machine Sample.display).run (start false Sample.config ∅ ∅)
      (Sample.twice (Sample.packet 9 Sample.mixedName))).map
        (fun p => decide (.answered Sample.mixedAsking (Sample.answer 9 Sample.name)
          (.l1 ⟨⟨Sample.answer 7 Sample.name, 60⟩, 60000000000⟩) 1000000000 ∈ p.2)) = some true
      by decide +kernel)
  exact ⟨t, outs, hrun, fun hhits => absurd (hhits _ (of_decide_eq_true houts) nofun)
    (by decide +kernel)⟩

/-- Two queries in the same letters. -/
theorem hit_in_same_letters : ∃ t outs,
    (machine Sample.display).run (start false Sample.config ∅ ∅)
      (Sample.twice (Sample.packet 9 Sample.name)) = some (t, outs) ∧
    outs.filterMap Output.replied =
      [Sample.answer 7 Sample.name, Sample.answer 9 Sample.name] ∧
    ((∀ o ∈ outs, o.HitRepeats) ↔ Machine.Justified (SpelledAlike Sample.display) outs) := by
  have hparse : Parser.parseUdp (Sample.packet 9 Sample.name) = .ok (Sample.query 9) := by
    decide +kernel
  obtain ⟨⟨t, outs⟩, hrun, houts⟩ := Option.map_eq_some_iff.mp
    (show ((machine Sample.display).run (start false Sample.config ∅ ∅)
      (Sample.twice (Sample.packet 9 Sample.name))).map
        (fun p => p.2.filterMap Output.replied) = some
          [Sample.answer 7 Sample.name, Sample.answer 9 Sample.name] by decide +kernel)
  have hordinary : (Sample.query 9).Ordinary Sample.display :=
    @Server.Sample.ordinary (Sample.query 9) [0, 1, 0, 1] (by decide +kernel) (by decide +kernel)
  exact ⟨t, outs, hrun, houts, (hits_repeat_iff
    (fun query h => ordinary_of_twice hparse hordinary h) hrun (by decide +kernel)).1⟩

end Levels

end Denis
