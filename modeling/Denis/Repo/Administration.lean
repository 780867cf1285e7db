import Denis.Handler.Encoding
import Denis.Repo.Cache
import Denis.Repo.Lists

/-!
# What an administrator blocks is blocked

`normalize_domains` trims, lower-cases and validates a string of the API;
`parse_question` lower-cases and dots a name byte by byte. They meet on hostname
labels: if a string was added, then every packet asking for it or a subdomain of
it, in any mixture of upper and lower case, is parsed to a name that is blocked
until the domain is removed, unless a label suffix of it is allowed
(`added_domain_blocked`).
-/

namespace Denis

open Text DomainName

/-- A string as `normalize_domains` leaves it, before validation. -/
def normalized (lc : Lowercase) (s : Str) : Str :=
  lc.toLowercase (trimEndMatches '.' (trim s))

/-- A set that covers the name of host labels holds a label suffix of it. -/
theorem suffix_of_covers {set : DomainSet} {ls : List Label} (hls : ∀ l ∈ ls, HostLabel l)
    (hne : ls ≠ []) (h : Repo.Covers set (fromUtf8Lossy (dotted ls))) :
    ∃ d ∈ set, ∃ ms, ms ≠ [] ∧ ms <:+ ls ∧ dotted ms = utf8 d := by
  obtain ⟨d, hd, hend⟩ := Repo.exists_of_covers_ascii (dotted_ascii hls) h
  refine ⟨d, hd, ?_⟩
  rcases hend with heq | hsuffix
  · exact ⟨ls, hne, List.suffix_refl _, heq.symm⟩
  · -- no label holds a dot, so ends after dots are label suffixes
    have hnodot : ∀ p ∈ ls.map Label.lower, 46 ∉ p := by
      intro p hp
      obtain ⟨l, hl, rfl⟩ := List.mem_map.mp hp
      exact (hls l hl).no_dot
    obtain ⟨pre, ms, -, hms, hsplit, heq⟩ := (mem_suffixesAfter_intercalate hnodot).mp hsuffix
    obtain ⟨pre', ms', rfl, rfl, rfl⟩ := List.map_eq_append_iff.mp hsplit
    exact ⟨ms', by simpa using hms, List.suffix_append _ _, heq.symm⟩

/-! ## The labels of a normalised domain -/

/-- A name is written in the labels of a domain, in any mixture of cases. -/
def Spells (cased : List Label) (d : Str) : Prop :=
  cased.map Label.lower = (d.splitOn '.').map fun piece => (utf8 piece).map toAsciiLowercase

theorem utf8_intercalate (ls : List Str) :
    utf8 (['.'].intercalate ls) = [46].intercalate (ls.map utf8) := by
  induction ls with
  | nil => rfl
  | cons l ls ih =>
    by_cases hls : ls = []
    · simp [hls]
    · rw [List.map_cons, List.intercalate_cons_of_ne_nil hls,
        List.intercalate_cons_of_ne_nil (by simpa using hls), utf8_append, utf8_append, ih]
      rfl

namespace Spells

variable {cased : List Label} {d : Str}

theorem ne_nil (h : Spells cased d) : cased ≠ [] := by
  rintro rfl
  exact List.splitOn_ne_nil '.' d (List.map_eq_nil_iff.mp h.symm)

/-- The labels of a valid domain are host labels. -/
theorem hostLabel (h : Spells cased d) (hd : Repo.ValidDomain d) : ∀ l ∈ cased, HostLabel l := by
  intro l hl b hb
  have hmem : l.lower ∈ cased.map Label.lower := List.mem_map_of_mem hl
  rw [h] at hmem
  obtain ⟨piece, hpiece, heq⟩ := List.mem_map.mp hmem
  rw [← heq] at hb
  obtain ⟨c, hc, rfl⟩ := List.mem_map.mp hb
  exact Repo.isHostnameByte_lower ((hd.labels piece hpiece).2.2 c hc)

/-- The dotted name is the domain, if the domain has no upper-case letter. -/
theorem dotted (h : Spells cased d) (hd : Repo.ValidDomain d)
    (hlower : ∀ c ∈ d, ¬ (65 ≤ c.toNat ∧ c.toNat ≤ 90)) : dotted cased = utf8 d := by
  have hsame : (utf8 d).map toAsciiLowercase = utf8 d := by
    rw [utf8_ascii hd.ascii, List.map_map]
    refine List.map_congr_left fun c hc => UInt8.toNat_inj.mp ?_
    have hc' := hlower c hc
    have hlt := hd.ascii c hc
    have hcode : (UInt8.ofNat c.toNat).toNat = c.toNat := by
      rw [UInt8.toNat_ofNat']
      omega
    show (toAsciiLowercase (UInt8.ofNat c.toNat)).toNat = _
    rw [toAsciiLowercase_toNat, hcode, if_neg hc']
  calc
    DomainName.dotted cased
        = [46].intercalate ((d.splitOn '.').map fun piece =>
            (utf8 piece).map toAsciiLowercase) := congrArg _ h
    _ = ([46].intercalate ((d.splitOn '.').map utf8)).map toAsciiLowercase := by
      rw [map_intercalate, List.map_map]
      rfl
    _ = (utf8 d).map toAsciiLowercase := by
      rw [← utf8_intercalate, List.intercalate_splitOn]
    _ = utf8 d := hsame

end Spells

/-- **A successful addition** of one considered domain: it is valid, and on the
block list. -/
theorem addBlockDomain_ok {lc : Lowercase} {execute : Str → List Str → Except CacheError Nat}
    {lists : Lists} {list s : Str} {outcome : AddOutcome}
    (h : (addBlockDomain lc execute lists list s).2 = .ok outcome)
    (hconsidered : outcome.considered = 1) :
    Repo.isValidDomain (normalized lc s) = true ∧
      normalized lc s ∈ (addBlockDomain lc execute lists list s).1.blockList := by
  have hfilter : Repo.normalizeDomains lc [s] =
      if Repo.isValidDomain (normalized lc s) = true then [normalized lc s] else [] :=
    List.filter_cons
  unfold addBlockDomain addBlockDomains at h ⊢
  dsimp only at h ⊢
  by_cases hvalid : Repo.isValidDomain (normalized lc s) = true
  · have hlist := hfilter.trans (if_pos hvalid)
    refine ⟨hvalid, ?_⟩
    rw [hlist, if_neg (by simp), cowInsert_eq]
    simp
  · have hlist := hfilter.trans (if_neg hvalid)
    rw [hlist, if_pos rfl] at h
    obtain rfl := Except.ok.inj h
    cases hconsidered

/-- A query for hostname labels that fit a name is accepted, and read as they
are. -/
theorem parseUdp_hostname {hdr : Bytes} (hhdr : hdr.length = 12) {labels : List Label}
    (hhost : ∀ l ∈ labels, HostLabel l) (hlen : (wire labels).length + 1 ≤ 255)
    (type₁ type₂ class₁ class₂ : UInt8) (trailing : Bytes) :
    ∃ query, Parser.parseUdp (hdr ++ (wire labels ++
        0 :: type₁ :: type₂ :: class₁ :: class₂ :: trailing)) = .ok query ∧
      query.name = fromUtf8Lossy (dotted labels) := by
  rw [Parser.parseUdp_wire hhdr fun l hl => (hhost l hl).visible, Parser.readWire,
    if_neg (by omega)]
  exact ⟨_, rfl, rfl⟩

/-- **What an administrator blocks is blocked**, whatever updates follow that do
not remove it: every query for the domain or a subdomain, in any case, is
accepted by the parser and blocked, if no label suffix of the name is allowed. -/
theorem added_domain_blocked {lc : Lowercase} {execute : Str → List Str → Except CacheError Nat}
    {lists : Lists} {list s : Str} {outcome : AddOutcome}
    (hadd : (addBlockDomain lc execute lists list s).2 = .ok outcome)
    (hconsidered : outcome.considered = 1) {updates : List Update}
    (hkept : ∀ domain, .removeBlockDomain domain ∈ updates →
      lc.toLowercase domain ≠ normalized lc s)
    {hdr : Bytes} (hhdr : hdr.length = 12) {extra cased : List Label}
    (hextra : ∀ l ∈ extra, ∀ b ∈ l.bytes, Repo.isHostnameByte b = true)
    (hcased : Spells cased (normalized lc s))
    (hlen : (wire (extra ++ cased)).length + 1 ≤ 255) (type₁ type₂ class₁ class₂ : UInt8)
    (trailing : Bytes) :
    ∃ query,
      Parser.parseUdp (hdr ++ (wire (extra ++ cased) ++
        0 :: type₁ :: type₂ :: class₁ :: class₂ :: trailing)) = .ok query ∧
      ∀ final, final = updates.foldl (Update.apply lc) (addBlockDomain lc execute lists list s).1 →
        (∀ a ∈ final.allowList, ∀ ms, ms ≠ [] → ms <:+ extra ++ cased → dotted ms ≠ utf8 a) →
        ∀ l1, (Cache.mk l1 final.allowList final.blockList).isBlocked query.name = true := by
  obtain ⟨hvalid, hmem⟩ := addBlockDomain_ok hadd hconsidered
  have hdomain := Repo.validDomain_of_isValidDomain hvalid
  have hhost : ∀ l ∈ extra ++ cased, HostLabel l := by
    intro l hl
    rcases List.mem_append.mp hl with hl | hl
    · exact .of_bytes (hextra l hl)
    · exact hcased.hostLabel hdomain l hl
  have hne : extra ++ cased ≠ [] := by simp [hcased.ne_nil]
  obtain ⟨query, hok, hname⟩ := parseUdp_hostname hhdr hhost hlen type₁ type₂ class₁ class₂ trailing
  refine ⟨query, hok, ?_⟩
  rintro final rfl hunallowed l1
  have hblocked := Update.mem_blockList_foldl lc hmem hkept
  rw [Cache.isBlocked, Repo.decide_iff, hname]
  constructor
  · -- the domain's labels end the name
    rw [Repo.covers_iff]
    refine ⟨_, hblocked, (Repo.end_lossy_iff hdomain.ascii _).mpr ?_⟩
    rw [← hcased.dotted hdomain (lc.noUpper _)]
    by_cases hnone : extra = []
    · subst hnone
      exact .inl rfl
    · rw [dotted_append hnone hcased.ne_nil]
      exact .inr (mem_suffixesAfter.mpr ⟨_, rfl⟩)
  · -- a covered name has a label suffix on the list
    intro hcovers
    obtain ⟨a, ha, ms, hms, hsuffix, heq⟩ := suffix_of_covers hhost hne hcovers
    exact hunallowed a ha ms hms hsuffix heq

/-- The string ` Ab.cD. ` is added, another domain is added and removed, and
`w.aB.Cd` is asked for. -/
theorem mixed_case_subdomain_blocked :
    let added := addBlockDomain .asciiOnly (fun _ chunk => .ok chunk.length) ⟨∅, ∅⟩ ['l']
      [' ', 'A', 'b', '.', 'c', 'D', '.', ' ']
    let updates : List Update :=
      [.addBlockDomains [['x', '.', 'y']], .removeBlockDomain ['x', '.', 'y']]
    let final := updates.foldl (Update.apply .asciiOnly) added.1
    ∃ query,
      Parser.parseUdp [0, 7, 1, 0, 0, 1, 0, 0, 0, 0, 0, 0,
        1, 119, 2, 97, 66, 2, 67, 100, 0, 0, 1, 0, 1] = .ok query ∧
      (Cache.mk TtlMap.empty final.allowList final.blockList).isBlocked query.name = true := by
  intro added updates final
  have hadd : added.2 = .ok ⟨1, 1⟩ := by decide +kernel
  obtain ⟨query, hok, hblocked⟩ := @added_domain_blocked _ _ _ _ _ _ hadd rfl updates
    (by simpa [updates] using by decide) [0, 7, 1, 0, 0, 1, 0, 0, 0, 0, 0, 0] rfl
    [⟨[119], by decide, by decide⟩]
    [⟨[97, 66], by decide, by decide⟩, ⟨[67, 100], by decide, by decide⟩] (by decide +kernel)
    (by unfold Spells; decide +kernel) (by decide) 0 1 0 1 []
  have hallow : final.allowList = ∅ := rfl
  exact ⟨query, hok, hblocked final rfl (by simp [hallow]) _⟩

end Denis
