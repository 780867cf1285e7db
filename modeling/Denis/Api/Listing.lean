import Denis.Lib.Paging
import Denis.Repo.Store
import Mathlib.Algebra.Order.Ring.Int

/-!
# Listing the domains page by page (`api/mod.rs`, `repo/cache.rs`)

`list_blocked` and `list_allowed` select one page of a table, sorted, at an
offset the client counts up. The two database backends differ in the order of
text and in a negative `OFFSET` (an offset of 2^63 or more is cast to one); both
are `Backend`.

Edits come between the pages, so a listing is not a snapshot. `Browsing` is a
client that asks for page after page among edits that may fail half way. While
no domain is removed, every domain there at the beginning is listed
(`listing_complete`); of the allow list none ever is removed. While none is
added, no domain is listed twice (`listing_distinct`).
-/

namespace Denis

open Text

/-- `DEFAULT_LIMIT` (`api/mod.rs:73`). -/
def defaultLimit : UInt64 := 100

/-- `MAX_LIMIT` (`api/mod.rs:74`). -/
def maxLimit : UInt64 := 1000

/-- `Pagination` (`api/mod.rs:76–80`); `usize` has 64 bits. -/
structure Pagination where
  limit : Option UInt64
  offset : Option UInt64
  deriving DecidableEq

/-- `usize::clamp`. -/
def clampLimit (x lo hi : UInt64) : UInt64 := if x < lo then lo else if hi < x then hi else x

/-- `Pagination::resolve` (`api/mod.rs:82–87`). -/
def Pagination.resolve (p : Pagination) : UInt64 × UInt64 :=
  (clampLimit (p.limit.getD defaultLimit) 1 maxLimit, p.offset.getD 0)

/-- What the two backends of `db.rs` do differently here: the order of text, and
a negative `OFFSET`, which SQLite takes as 0 and PostgreSQL refuses. -/
structure Backend where
  collation : Collation Str
  negativeOffset : Option CacheError

/-- `page_domains` (`cache.rs:359–373`) on the domains of a table. -/
def pageDomains (db : Backend) (domains : List Str) (limit offset : Int64) :
    Except CacheError (List Str) :=
  if offset < 0 then
    match db.negativeOffset with
    | some e => .error e
    | none => .ok (db.collation.page domains limit.toInt.toNat 0)
  else .ok (db.collation.page domains limit.toInt.toNat offset.toInt.toNat)

/-- `list_block_domains` and `list_allow_domains` as their handlers call them,
`as i64` (`api/mod.rs:256–261`, `322–327`). -/
def Pagination.select (p : Pagination) (db : Backend) (domains : List Str) :
    Except CacheError (List Str) :=
  pageDomains db domains p.resolve.1.toInt64 p.resolve.2.toInt64

/-- SQLite: text in the order of its bytes, which is that of its scalar values. -/
def Backend.sqlite : Backend where
  collation := {
    le := fun a b => decide (List.le a b)
    trans := fun a b c hab hbc =>
      decide_eq_true (List.le_trans (of_decide_eq_true hab) (of_decide_eq_true hbc))
    total := fun a b => by
      rw [Bool.or_eq_true, decide_eq_true_iff, decide_eq_true_iff]
      exact List.le_total a b
    antisymm := fun a b hab hba =>
      List.le_antisymm (of_decide_eq_true hab) (of_decide_eq_true hba) }
  negativeOffset := none

theorem toInt_toInt64 {x : UInt64} (hx : x.toNat < 2 ^ 63) : x.toInt64.toInt = x.toNat := by
  rw [← UInt64.ofNat_toNat (x := x), UInt64.toInt64_ofNat', UInt64.ofNat_toNat]
  exact Int64.toInt_ofNat_of_lt hx

/-- The limit in force is between 1 and 1000. -/
theorem Pagination.resolve_limit (p : Pagination) :
    1 ≤ p.resolve.1.toNat ∧ p.resolve.1.toNat ≤ 1000 := by
  unfold resolve clampLimit
  dsimp only
  split
  · exact ⟨by decide, by decide⟩
  · next hlo =>
    split
    · exact ⟨by decide, by decide⟩
    · next hhi => exact ⟨Nat.le_of_not_lt hlo, Nat.le_of_not_lt hhi⟩

/-- A page at an offset that is no larger than an `i64`. -/
theorem Pagination.select_eq {p : Pagination} {db : Backend} {domains : List Str}
    (hoffset : p.resolve.2.toNat < 2 ^ 63) :
    p.select db domains =
      .ok (db.collation.page domains p.resolve.1.toNat p.resolve.2.toNat) := by
  have hlimit := toInt_toInt64 (Nat.lt_of_le_of_lt p.resolve_limit.2 (by decide))
  have hpos : ¬ p.resolve.2.toInt64 < 0 := by
    rw [Int64.lt_iff_toInt_lt, toInt_toInt64 hoffset, Int64.toInt_zero]
    omega
  rw [select, pageDomains, if_neg hpos, hlimit, toInt_toInt64 hoffset, Int.toNat_natCast,
    Int.toNat_natCast]

/-! ## What edits do to the tables -/

namespace ListStore

variable {lc : Lowercase} {faults : Faults} {s : ListStore}

/-- An addition takes no domain from its table, whatever fails. -/
theorem addDomains_keys {ρ : Type} {key : ρ → Str} (row : Str → ρ) (list : DomainSet)
    (t : Table key) (domains : List Str) :
    ∀ d ∈ t.keys, d ∈ (addDomains row faults lc list t domains).2.1.keys := by
  intro d hd
  unfold addDomains
  dsimp only
  split
  · exact hd
  · rw [insertLoop_eq]
    exact (Table.mem_keys_insertIgnore ..).mpr (.inl hd)

/-- No call takes a domain from the allowed. -/
theorem call_allowed (c : EditCall) :
    ∀ d ∈ s.allowed.keys, d ∈ (s.call lc faults c).1.allowed.keys := by
  intro d hd
  cases c with
  | addBlockDomains list domains => exact hd
  | addBlockDomain list domain => exact hd
  | addAllowDomains domains => exact addDomains_keys id _ _ domains d hd
  | addAllowDomain domain => exact addDomains_keys id _ _ [domain] d hd
  | removeBlockDomain domain =>
    show d ∈ (s.removeBlockDomain lc faults domain).1.allowed.keys
    unfold removeBlockDomain
    dsimp only
    split <;> exact hd

/-- Only a removal takes a domain from the blocked. -/
theorem call_blocked {c : EditCall} (hc : ∀ domain, c ≠ .removeBlockDomain domain) :
    ∀ d ∈ s.blocked.keys, d ∈ (s.call lc faults c).1.blocked.keys := by
  intro d hd
  cases c with
  | addBlockDomains list domains => exact addDomains_keys (BlockedRow.mk list) _ _ domains d hd
  | addBlockDomain list domain => exact addDomains_keys (BlockedRow.mk list) _ _ [domain] d hd
  | addAllowDomains domains => exact hd
  | addAllowDomain domain => exact hd
  | removeBlockDomain domain => exact absurd rfl (hc domain)

/-- A removal brings no domain. -/
theorem remove_blocked (domain : Str) :
    ∀ d ∈ (s.removeBlockDomain lc faults domain).1.blocked.keys, d ∈ s.blocked.keys := by
  intro d hd
  unfold removeBlockDomain at hd
  dsimp only at hd
  split at hd
  · exact hd
  · exact ((Table.mem_keys_deleteWhere ..).mp hd).1

end ListStore

/-- The tables that are listed. -/
inductive ListKind
  | blocked
  | allowed
  deriving DecidableEq, Repr

/-- The table a call writes. -/
def EditCall.writes : EditCall → ListKind
  | addBlockDomains _ _ => .blocked
  | addBlockDomain _ _ => .blocked
  | addAllowDomains _ => .allowed
  | addAllowDomain _ => .allowed
  | removeBlockDomain _ => .blocked

namespace ListKind

/-- The domains of a table. -/
def domains : ListKind → ListStore → List Str
  | .blocked, s => s.blocked.keys
  | .allowed, s => s.allowed.keys

theorem nodup (kind : ListKind) (s : ListStore) : (kind.domains s).Nodup := by
  cases kind with
  | blocked => exact s.blocked.unique
  | allowed => exact s.allowed.unique

variable {lc : Lowercase} {faults : Faults} {s : ListStore} {kind : ListKind} {c : EditCall}

/-- A call leaves the other table alone. -/
theorem domains_call (hc : c.writes ≠ kind) :
    kind.domains (s.call lc faults c).1 = kind.domains s := by
  cases kind with
  | blocked =>
    cases c with
    | addAllowDomains domains => rfl
    | addAllowDomain domain => rfl
    | _ => exact absurd rfl hc
  | allowed =>
    cases c with
    | addBlockDomains list domains => rfl
    | addBlockDomain list domain => rfl
    | removeBlockDomain domain =>
      show (s.removeBlockDomain lc faults domain).1.allowed.keys = s.allowed.keys
      unfold ListStore.removeBlockDomain
      dsimp only
      split <;> rfl
    | _ => exact absurd rfl hc

/-- Calls that remove nothing from a table. -/
theorem domains_grow (hc : ∀ domain, c = .removeBlockDomain domain → kind = .allowed) :
    ∀ d ∈ kind.domains s, d ∈ kind.domains (s.call lc faults c).1 := by
  cases kind with
  | blocked =>
    refine ListStore.call_blocked fun domain heq => ?_
    cases hc domain heq
  | allowed => exact ListStore.call_allowed c

/-- Calls that add nothing to a table. -/
theorem domains_shrink (hc : c.writes = kind → ∃ domain, c = .removeBlockDomain domain) :
    ∀ d ∈ kind.domains (s.call lc faults c).1, d ∈ kind.domains s := by
  by_cases hwrites : c.writes = kind
  · obtain ⟨domain, rfl⟩ := hc hwrites
    obtain rfl := hwrites
    exact ListStore.remove_blocked domain
  · rw [domains_call hwrites]
    exact fun d hd => hd

end ListKind

/-! ## A client that lists a table -/

/-- The tables, and how far the client has come. -/
structure Browsing where
  store : ListStore
  walk : Walk Str

/-- The client asks for its next page, or somebody edits a list. -/
inductive BrowseStep
  | page
  | edit (faults : Faults) (call : EditCall)

namespace Browsing

variable (lc : Lowercase) (db : Backend) (kind : ListKind) (limit : Option UInt64)

/-- The limit in force for the client (`limit` of the pages it gets). -/
def pageSize : Nat := (Pagination.mk limit none).resolve.1.toNat

/-- The client's request for a page: so many pages further on. -/
def request (asked : Nat) : Pagination := ⟨limit, some (UInt64.ofNat (asked * pageSize limit))⟩

/-- One step; a refused page ends the listing. -/
def step (s : Browsing) : BrowseStep → Option (Browsing × List (List Str))
  | .page =>
    match (request limit s.walk.asked).select db (kind.domains s.store) with
    | .error _ => none
    | .ok items => some ({ s with walk := ⟨s.walk.asked + 1, s.walk.listed ++ items⟩ }, [items])
  | .edit faults call => some ({ s with store := (s.store.call lc faults call).1 }, [])

/-- A listing among edits, as a machine; its outputs are the pages. -/
abbrev machine : Machine Browsing BrowseStep (List Str) := ⟨step lc db kind limit⟩

/-- The pages asked for in a run start at offsets of an `i64`. -/
def Few (pages : List (List Str)) : Prop := pages.length * 1000 < 2 ^ 63

variable {lc db kind limit} {s s' : Browsing} {h out : List (List Str)} {e : BrowseStep}

theorem Few.of_append (hfew : Few (h ++ out)) : Few h := by
  refine Nat.lt_of_le_of_lt (Nat.mul_le_mul_right _ ?_) hfew
  rw [List.length_append]
  exact Nat.le_add_right ..

/-- **What a step does**: the walk goes on over the present table, or an edit
changes the tables. -/
theorem step_cases (hwalk : s.walk = ⟨h.length, h.flatten⟩) (hfew : Few (h ++ out))
    (hstep : step lc db kind limit s e = some (s', out)) :
    (e = .page ∧ s'.store = s.store ∧
      out = [db.collation.page (kind.domains s.store) (pageSize limit)
        (s.walk.asked * pageSize limit)] ∧
      s'.walk = s.walk.next db.collation (pageSize limit) (kind.domains s.store)) ∨
    (∃ faults call, e = .edit faults call ∧ out = [] ∧ s'.walk = s.walk ∧
      s'.store = (s.store.call lc faults call).1) := by
  cases e with
  | page =>
    refine .inl ?_
    -- the offset fits, so no page is refused
    have hsize : pageSize limit ≤ 1000 := (Pagination.resolve_limit _).2
    have hoffset : s.walk.asked * pageSize limit < 2 ^ 63 := by
      have hle : s.walk.asked * pageSize limit ≤ h.length * 1000 := by
        rw [hwalk]
        exact Nat.mul_le_mul_left _ hsize
      exact Nat.lt_of_le_of_lt hle hfew.of_append
    have hresolve : (request limit s.walk.asked).resolve.2.toNat =
        s.walk.asked * pageSize limit := by
      show (UInt64.ofNat _).toNat = _
      rw [UInt64.toNat_ofNat', Nat.mod_eq_of_lt (Nat.lt_trans hoffset (by decide))]
    rw [step, Pagination.select_eq (by rw [hresolve]; exact hoffset), hresolve] at hstep
    obtain ⟨rfl, rfl⟩ := Prod.mk.inj (Option.some.inj hstep)
    exact ⟨rfl, rfl, rfl, rfl⟩
  | edit faults call =>
    obtain ⟨rfl, rfl⟩ := Prod.mk.inj (Option.some.inj hstep)
    exact .inr ⟨faults, call, rfl, rfl, rfl, rfl⟩

/-- What was listed is what the pages hold. -/
theorem walk_concat {page : List Str} (hwalk : s.walk = ⟨h.length, h.flatten⟩)
    (hnext : s'.walk = ⟨s.walk.asked + 1, s.walk.listed ++ page⟩) :
    s'.walk = ⟨(h ++ [page]).length, (h ++ [page]).flatten⟩ := by
  rw [hnext, hwalk, List.length_append, List.flatten_append, List.flatten_singleton]
  rfl

/-! ## Nothing is missed -/

/-- Every domain there at the beginning has been listed or is still to come, and
has been listed once a page was not full. -/
structure Complete (db : Backend) (kind : ListKind) (limit : Option UInt64) (first : List Str)
    (h : List (List Str)) (s : Browsing) : Prop where
  walk : s.walk = ⟨h.length, h.flatten⟩
  ahead : ∀ d ∈ first, Walk.Ahead db.collation (pageSize limit) (kind.domains s.store) s.walk d
  finished : (∃ page ∈ h, page.length < pageSize limit) → ∀ d ∈ first, d ∈ s.walk.listed

theorem Complete.step {first : List Str} (hs : Complete db kind limit first h s)
    (hfew : Few (h ++ out))
    (hkept : ∀ faults domain, e = .edit faults (.removeBlockDomain domain) → kind = .allowed)
    (hstep : Browsing.step lc db kind limit s e = some (s', out)) :
    Complete db kind limit first (h ++ out) s' := by
  rcases step_cases hs.walk hfew hstep with
      ⟨rfl, hstore, rfl, hwalk⟩ | ⟨faults, call, rfl, rfl, hwalk, hstore⟩
  · refine ⟨walk_concat hs.walk hwalk, fun d hd => ?_, ?_⟩
    · rw [hstore, hwalk]
      exact (hs.ahead d hd).next (kind.nodup _)
    · rintro ⟨page, hpage, hshort⟩ d hd
      rw [hwalk]
      rcases List.mem_append.mp hpage with hpage | hpage
      · exact List.mem_append_left _ (hs.finished ⟨page, hpage, hshort⟩ d hd)
      · -- this is the page that is not full
        obtain rfl := List.mem_singleton.mp hpage
        exact (hs.ahead d hd).finish (kind.nodup _) hshort
  · rw [List.append_nil]
    refine ⟨hwalk.trans hs.walk, fun d hd => ?_, ?_⟩
    · rw [hstore, hwalk]
      exact (hs.ahead d hd).grow (kind.nodup _)
        (ListKind.domains_grow fun domain heq => hkept faults domain (by rw [heq]))
    · rw [hwalk]
      exact hs.finished

/-- **A listing misses nothing.** Whatever edits come between the pages, and
fail, every domain of the table at the beginning has been listed once a page was
not full: of the allow list always, of the block list if none was removed. -/
theorem listing_complete {t : Browsing} {es : List BrowseStep} {pages : List (List Str)}
    (hstart : s.walk = .start) (hrun : (machine lc db kind limit).run s es = some (t, pages))
    (hkept : ∀ faults domain,
      .edit faults (.removeBlockDomain domain) ∈ es → kind = .allowed)
    (hfew : Few pages) (hlast : ∃ page ∈ pages, page.length < pageSize limit) :
    ∀ d ∈ kind.domains s.store, d ∈ pages.flatten := by
  have hbegin : Few [] → Complete db kind limit (kind.domains s.store) [] s := by
    refine fun _ => ⟨hstart, fun d hd => ?_, by simp⟩
    rw [hstart]
    exact .start hd
  have hreached := Machine.run_history
    (C := fun _ e =>
      ∀ faults domain, e = .edit faults (.removeBlockDomain domain) → kind = .allowed)
    (J := fun h m => Few h → Complete db kind limit (kind.domains s.store) h m)
    (fun h m e m' out hm hC hstep hfew => (hm hfew.of_append).step hfew hC hstep) hbegin
    (Machine.along_of_forall (by rintro _ he faults domain rfl; exact hkept faults domain he) s)
    hrun hfew
  intro d hd
  have hlisted := hreached.finished hlast d hd
  rwa [hreached.walk] at hlisted

/-- Two domains in each table, about to be listed. -/
def sample : Browsing where
  store :=
    { lists := ⟨{['a', '.', 'b'], ['c', '.', 'd']}, {['a', '.', 'b'], ['c', '.', 'd']}⟩
      blocked := ⟨[⟨['l'], ['c', '.', 'd']⟩, ⟨['l'], ['a', '.', 'b']⟩], by decide⟩
      allowed := ⟨[['c', '.', 'd'], ['a', '.', 'b']], by decide⟩ }
  walk := .start

/-- The `k`-th page of one domain of both tables. -/
def samplePage (k : Nat) : List Str :=
  Backend.sqlite.collation.page [['c', '.', 'd'], ['a', '.', 'b']] 1 k

/-- The allow list, one domain a page, while a domain is unblocked. -/
theorem allowed_listed :
    ∃ t, (machine .asciiOnly .sqlite .allowed (some 1)).run sample
        [.page, .edit .never (.removeBlockDomain ['a', '.', 'b']), .page, .page] =
          some (t, [samplePage 0, samplePage 1, samplePage 2]) ∧
      ∀ d ∈ [['a', '.', 'b'], ['c', '.', 'd']],
        d ∈ [samplePage 0, samplePage 1, samplePage 2].flatten := by
  refine ⟨_, rfl, ?_⟩
  have hlast : (samplePage 2).length < 1 := by
    rw [samplePage, Collation.length_page]
    decide
  have hlisted := @listing_complete .asciiOnly .sqlite .allowed (some 1) sample _
    [.page, .edit .never (.removeBlockDomain ['a', '.', 'b']), .page, .page]
    [samplePage 0, samplePage 1, samplePage 2] rfl rfl (fun _ _ _ => rfl) (by unfold Few; decide)
    ⟨_, by simp, hlast⟩
  intro d hd
  exact hlisted d (by revert d; decide)

/-! ## Nothing is listed twice -/

/-- The pages so far repeat nothing and are not to come again. -/
structure Distinct (db : Backend) (kind : ListKind) (limit : Option UInt64)
    (h : List (List Str)) (s : Browsing) : Prop where
  walk : s.walk = ⟨h.length, h.flatten⟩
  behind : Walk.Behind db.collation (pageSize limit) (kind.domains s.store) s.walk

theorem Distinct.step (hs : Distinct db kind limit h s) (hfew : Few (h ++ out))
    (hremovals : ∀ faults call, e = .edit faults call → call.writes = kind →
      ∃ domain, call = .removeBlockDomain domain)
    (hstep : Browsing.step lc db kind limit s e = some (s', out)) :
    Distinct db kind limit (h ++ out) s' := by
  rcases step_cases hs.walk hfew hstep with
      ⟨rfl, hstore, rfl, hwalk⟩ | ⟨faults, call, rfl, rfl, hwalk, hstore⟩
  · refine ⟨walk_concat hs.walk hwalk, ?_⟩
    rw [hstore, hwalk]
    exact hs.behind.next (kind.nodup _)
  · rw [List.append_nil]
    refine ⟨hwalk.trans hs.walk, ?_⟩
    rw [hstore, hwalk]
    exact hs.behind.shrink (kind.nodup _) (ListKind.domains_shrink (hremovals faults call rfl))

/-- **A listing repeats nothing** if between its pages domains of the table are
removed but none is added. -/
theorem listing_distinct {t : Browsing} {es : List BrowseStep} {pages : List (List Str)}
    (hstart : s.walk = .start) (hrun : (machine lc db kind limit).run s es = some (t, pages))
    (hremovals : ∀ faults call, .edit faults call ∈ es → call.writes = kind →
      ∃ domain, call = .removeBlockDomain domain)
    (hfew : Few pages) : pages.flatten.Nodup := by
  have hbegin : Few [] → Distinct db kind limit [] s := by
    refine fun _ => ⟨hstart, ?_⟩
    rw [hstart]
    exact .start
  have hreached := Machine.run_history
    (C := fun _ e => ∀ faults call, e = .edit faults call → call.writes = kind →
      ∃ domain, call = .removeBlockDomain domain)
    (J := fun h m => Few h → Distinct db kind limit h m)
    (fun h m e m' out hm hC hstep hfew => (hm hfew.of_append).step hfew hC hstep) hbegin
    (Machine.along_of_forall (by rintro _ he faults call rfl; exact hremovals faults call he) s)
    hrun hfew
  have hnodup := hreached.behind.nodup
  rwa [hreached.walk] at hnodup

/-- The block list, one domain a page, while a domain is unblocked. -/
theorem blocked_listed_once :
    ∃ t, (machine .asciiOnly .sqlite .blocked (some 1)).run sample
        [.page, .edit .never (.removeBlockDomain ['a', '.', 'b']), .page] =
          some (t, [samplePage 0, Backend.sqlite.collation.page [['c', '.', 'd']] 1 1]) ∧
      [samplePage 0, Backend.sqlite.collation.page [['c', '.', 'd']] 1 1].flatten.Nodup := by
  refine ⟨_, rfl, @listing_distinct .asciiOnly .sqlite .blocked (some 1) sample _
    [.page, .edit .never (.removeBlockDomain ['a', '.', 'b']), .page] _ rfl rfl ?_
    (by unfold Few; decide)⟩
  intro faults call hcall
  simp only [List.mem_cons, reduceCtorEq, BrowseStep.edit.injEq, List.not_mem_nil, or_false,
    false_or] at hcall
  exact fun _ => ⟨_, hcall.2⟩

/-! ## A table nobody edits -/

/-- The pages so far are the beginning of the sorted table. -/
structure Sliced (db : Backend) (kind : ListKind) (limit : Option UInt64) (first : List Str)
    (h : List (List Str)) (s : Browsing) : Prop where
  walk : s.walk = ⟨h.length, h.flatten⟩
  domains : kind.domains s.store = first
  listed : s.walk.listed = (db.collation.sort first).take (s.walk.asked * pageSize limit)

theorem Sliced.step {first : List Str} (hs : Sliced db kind limit first h s)
    (hfew : Few (h ++ out)) (hother : ∀ faults call, e = .edit faults call → call.writes ≠ kind)
    (hstep : Browsing.step lc db kind limit s e = some (s', out)) :
    Sliced db kind limit first (h ++ out) s' := by
  rcases step_cases hs.walk hfew hstep with
      ⟨rfl, hstore, rfl, hwalk⟩ | ⟨faults, call, rfl, rfl, hwalk, hstore⟩
  · refine ⟨walk_concat hs.walk hwalk, by rw [hstore, hs.domains], ?_⟩
    rw [hwalk, Walk.next, hs.listed, hs.domains]
    exact Collation.take_append_page ..
  · rw [List.append_nil]
    refine ⟨hwalk.trans hs.walk, ?_, ?_⟩
    · rw [hstore, ListKind.domains_call (hother faults call rfl), hs.domains]
    · rw [hwalk]
      exact hs.listed

/-- **The listing of a table nobody edits** is the table in order, as far as its
pages go. -/
theorem listing_exact {t : Browsing} {es : List BrowseStep} {pages : List (List Str)}
    (hstart : s.walk = .start) (hrun : (machine lc db kind limit).run s es = some (t, pages))
    (hother : ∀ faults call, .edit faults call ∈ es → call.writes ≠ kind) (hfew : Few pages) :
    pages.flatten =
      (db.collation.sort (kind.domains s.store)).take (pages.length * pageSize limit) := by
  have hbegin : Few [] → Sliced db kind limit (kind.domains s.store) [] s := by
    refine fun _ => ⟨hstart, rfl, ?_⟩
    rw [hstart]
    show [] = List.take (0 * _) _
    rw [Nat.zero_mul, List.take_zero]
  have hreached := Machine.run_history
    (C := fun _ e => ∀ faults call, e = .edit faults call → call.writes ≠ kind)
    (J := fun h m => Few h → Sliced db kind limit (kind.domains s.store) h m)
    (fun h m e m' out hm hC hstep hfew => (hm hfew.of_append).step hfew hC hstep) hbegin
    (Machine.along_of_forall (by rintro _ he faults call rfl; exact hother faults call he) s)
    hrun hfew
  have hlisted := hreached.listed
  rwa [hreached.walk] at hlisted

/-- Both pages of the allow list, while a domain is unblocked. -/
theorem allowed_listed_in_order :
    ∃ t, (machine .asciiOnly .sqlite .allowed (some 1)).run sample
        [.page, .edit .never (.removeBlockDomain ['a', '.', 'b']), .page] =
          some (t, [samplePage 0, samplePage 1]) ∧
      [samplePage 0, samplePage 1].flatten =
        (Backend.sqlite.collation.sort [['c', '.', 'd'], ['a', '.', 'b']]).take 2 := by
  refine ⟨_, rfl, @listing_exact .asciiOnly .sqlite .allowed (some 1) sample _
    [.page, .edit .never (.removeBlockDomain ['a', '.', 'b']), .page] _ rfl rfl ?_
    (by unfold Few; decide)⟩
  intro faults call hcall
  simp only [List.mem_cons, reduceCtorEq, BrowseStep.edit.injEq, List.not_mem_nil, or_false,
    false_or] at hcall
  rw [hcall.2]
  decide

end Browsing

end Denis
