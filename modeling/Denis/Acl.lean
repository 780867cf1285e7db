import Denis.Config
import Denis.Lib.Table
import Denis.Lib.Text

/-!
# The access list (`acl.rs`)

`Acl::decide` returns the action of the first entry one of whose networks holds
the address, `Allow` for an empty list and `Deny` if no entry matches. A parsed
network is known by the addresses it contains, and the parser of networks is a
parameter.

`fetch` makes the list out of table `access`: enabled rows in the order of their
ids, without those of whose networks none parses. An action word that is neither
`deny` nor `refuse` reads as `allow` (`allowed_iff_first`), and a table of which no
enabled row has a network that parses admits everybody (`mistyped_network_admits`).
-/

namespace Denis

open Text

/-- `Action` (`acl.rs:10–14`). -/
inductive Action
  | allow
  | deny
  | refuse
  deriving DecidableEq, Repr

/-- `ipnet::IpNet`, by the addresses it contains. -/
structure IpNet where
  contains : IpAddr → Bool

/-- `AclEntry` (`acl.rs:26–29`). -/
structure AclEntry where
  action : Action
  networks : List IpNet

/-- `Acl` (`acl.rs:31–33`). -/
structure Acl where
  entries : List AclEntry

namespace Acl

/-- The loop of `decide`. -/
def decideEntries (ip : IpAddr) : List AclEntry → Action
  | [] => .deny
  | e :: rest => if e.networks.any (·.contains ip) then e.action else decideEntries ip rest

/-- `Acl::decide` (`acl.rs:50–61`). -/
def decide (acl : Acl) (ip : IpAddr) : Action :=
  if acl.entries.isEmpty then .allow else decideEntries ip acl.entries

end Acl

/-! ## The `access` table -/

/-- `Action::parse` (`acl.rs:16–24`). -/
def Action.parse (s : Str) : Action :=
  let word := (trim s).map Char.toLower
  if word = ['d', 'e', 'n', 'y'] then .deny
  else if word = ['r', 'e', 'f', 'u', 's', 'e'] then .refuse
  else .allow

/-- A row of table `access`, without its name. -/
structure AccessRow where
  id : Int
  enabled : Bool
  action : Str
  networks : Str

/-- The table, by its primary key. -/
abbrev AccessTable := Table AccessRow.id

section Table

variable (parse : Str → Option IpNet)

/-- The networks of a row that parse; `parse` is `IpNet::from_str`. -/
def AccessRow.nets (row : AccessRow) : List IpNet :=
  (row.networks.splitOn ',').filterMap fun s => parse (trim s)

/-- An enabled row as an entry; one without a network is dropped. -/
def AccessRow.entry (row : AccessRow) : Option AclEntry :=
  let nets := row.nets parse
  if nets.isEmpty then none else some ⟨Action.parse row.action, nets⟩

/-- `ORDER BY id`. -/
def AccessTable.ordered (table : AccessTable) : List AccessRow :=
  table.rows.mergeSort fun r s => r.id ≤ s.id

/-- `fetch` (`acl.rs:79–98`). -/
def fetch (table : AccessTable) : List AclEntry :=
  (table.ordered.filter AccessRow.enabled).filterMap (AccessRow.entry parse)

/-- The row is enabled and has a network that holds the address. -/
def AccessRow.holds (row : AccessRow) (ip : IpAddr) : Bool :=
  row.enabled && (row.nets parse).any (·.contains ip)

/-- The first such row in the order of ids. -/
structure AccessTable.First (table : AccessTable) (ip : IpAddr) (row : AccessRow) : Prop where
  mem : row ∈ table.rows
  holds : row.holds parse ip = true
  first : ∀ other ∈ table.rows, other.holds parse ip = true → row.id ≤ other.id

variable {parse} {table : AccessTable} {ip : IpAddr}

/-- What the loop of `decide` finds in the entries of rows. -/
theorem decideEntries_filterMap (rows : List AccessRow) :
    Acl.decideEntries ip ((rows.filter AccessRow.enabled).filterMap (AccessRow.entry parse)) =
      match rows.find? (·.holds parse ip) with
      | some row => Action.parse row.action
      | none => .deny := by
  induction rows with
  | nil => rfl
  | cons row rows ih =>
    rw [List.find?_cons]
    cases henabled : row.enabled with
    | false =>
      rw [List.filter_cons_of_neg (by simp [henabled]), ih, AccessRow.holds, henabled]
      rfl
    | true =>
      rw [List.filter_cons_of_pos henabled, List.filterMap_cons, AccessRow.holds, henabled,
        Bool.true_and, AccessRow.entry]
      cases hnets : row.nets parse with
      | nil => exact ih
      | cons net nets =>
        show Acl.decideEntries ip (⟨Action.parse row.action, net :: nets⟩ :: _) = _
        rw [Acl.decideEntries]
        cases (net :: nets).any (·.contains ip) with
        | false => exact ih
        | true => rfl

/-- The rows in order. -/
theorem AccessTable.mem_ordered {row : AccessRow} : row ∈ table.ordered ↔ row ∈ table.rows :=
  (List.mergeSort_perm _ _).mem_iff

theorem AccessTable.pairwise_ordered (table : AccessTable) :
    table.ordered.Pairwise fun r s => r.id ≤ s.id := by
  have h : table.ordered.Pairwise fun r s => decide (r.id ≤ s.id) :=
    List.pairwise_mergeSort (fun a b c hab hbc => by simp at *; omega)
      (fun a b => by simp; omega) table.rows
  exact h.imp of_decide_eq_true

/-- The row found in order is the first. -/
theorem AccessTable.first_of_find {row : AccessRow}
    (h : table.ordered.find? (·.holds parse ip) = some row) : table.First parse ip row := by
  obtain ⟨hholds, pre, post, hsplit, hpre⟩ := List.find?_eq_some_iff_append.mp h
  refine ⟨mem_ordered.mp (by simp [hsplit]), hholds, fun other hother hother' => ?_⟩
  have hpairwise := table.pairwise_ordered
  rw [hsplit] at hpairwise
  rw [← mem_ordered, hsplit] at hother
  rcases List.mem_append.mp hother with hmem | hmem
  · have hnot := hpre other hmem
    rw [hother'] at hnot
    cases hnot
  · rcases List.mem_cons.mp hmem with rfl | hmem
    · exact Int.le_refl _
    · exact (List.pairwise_cons.mp (List.pairwise_append.mp hpairwise).2.1).1 other hmem

/-- There is one first row. -/
theorem AccessTable.First.eq {row other : AccessRow} (h : table.First parse ip row)
    (h' : table.First parse ip other) : row = other :=
  List.inj_on_of_nodup_map table.unique h.mem h'.mem
    (Int.le_antisymm (h.first other h'.mem h'.holds) (h'.first row h.mem h.holds))

/-- **What the table decides**, if a row is enabled and has a network: the action of
the first enabled row with a network that holds the address, or denial. -/
theorem decide_fetch
    (htable : ∃ row ∈ table.rows, row.enabled = true ∧ row.nets parse ≠ []) :
    (∃ row, table.First parse ip row ∧
      Acl.decide ⟨fetch parse table⟩ ip = Action.parse row.action) ∨
    (∀ row ∈ table.rows, row.holds parse ip = false) ∧
      Acl.decide ⟨fetch parse table⟩ ip = .deny := by
  obtain ⟨row, hrow, henabled, hnets⟩ := htable
  have hentry : row.entry parse = some ⟨Action.parse row.action, row.nets parse⟩ := by
    rw [AccessRow.entry, if_neg (by simpa using hnets)]
  have hsome : (⟨Action.parse row.action, row.nets parse⟩ : AclEntry) ∈ fetch parse table :=
    List.mem_filterMap.mpr ⟨row, List.mem_filter.mpr
      ⟨AccessTable.mem_ordered.mpr hrow, henabled⟩, hentry⟩
  rw [Acl.decide, if_neg (by simpa using List.ne_nil_of_mem hsome), fetch,
    decideEntries_filterMap]
  cases hfind : table.ordered.find? (·.holds parse ip) with
  | some first => exact .inl ⟨first, AccessTable.first_of_find hfind, rfl⟩
  | none =>
    refine .inr ⟨fun other hother => ?_, rfl⟩
    have hnot := List.find?_eq_none.mp hfind other (AccessTable.mem_ordered.mpr hother)
    simpa using hnot

theorem Action.parse_eq_allow {s : Str} : Action.parse s = .allow ↔
    (trim s).map Char.toLower ≠ ['d', 'e', 'n', 'y'] ∧
      (trim s).map Char.toLower ≠ ['r', 'e', 'f', 'u', 's', 'e'] := by
  unfold parse
  dsimp only
  split
  · next hdeny => simp [hdeny]
  · next hdeny =>
    split
    · next hrefuse => simp [hrefuse]
    · next hrefuse => simp [hdeny, hrefuse]

/-- **Who is let in**, if a row is enabled and has a network: the addresses that the
first enabled row with a network that holds them neither denies nor refuses. -/
theorem allowed_iff_first
    (htable : ∃ row ∈ table.rows, row.enabled = true ∧ row.nets parse ≠ []) :
    Acl.decide ⟨fetch parse table⟩ ip = .allow ↔
      ∃ row, table.First parse ip row ∧
        (trim row.action).map Char.toLower ≠ ['d', 'e', 'n', 'y'] ∧
        (trim row.action).map Char.toLower ≠ ['r', 'e', 'f', 'u', 's', 'e'] := by
  rcases decide_fetch htable with ⟨row, hfirst, hdecide⟩ | ⟨hnone, hdecide⟩
  · rw [hdecide, Action.parse_eq_allow]
    constructor
    · exact fun h => ⟨row, hfirst, h⟩
    · rintro ⟨other, hother, h⟩
      rwa [hfirst.eq hother]
  · rw [hdecide]
    constructor
    · intro h
      cases h
    · rintro ⟨row, hfirst, -⟩
      have hholds := hfirst.holds
      rw [hnone row hfirst.mem] at hholds
      cases hholds

end Table

/-! ## A concrete table -/

namespace Sample

/-- The network `10.0.0.0/8`, and no other text. -/
def parseNet (s : Str) : Option IpNet :=
  if s = ['1', '0', '.', '0', '.', '0', '.', '0', '/', '8'] then
    some ⟨fun ip =>
      match ip with
      | .v4 octets => octets[0] == 10
      | .v6 _ => false⟩
  else none

/-- One enabled row for the network, with an action. -/
def access (action : Str) : AccessTable :=
  ⟨[⟨1, true, action, ['1', '0', '.', '0', '.', '0', '.', '0', '/', '8']⟩], List.nodup_singleton 1⟩

/-- One enabled row that denies, for a network without its prefix length. -/
def cutNetwork : AccessTable :=
  ⟨[⟨1, true, ['d', 'e', 'n', 'y'], ['1', '0', '.', '0', '.', '0', '.', '0', '/']⟩],
    List.nodup_singleton 1⟩

/-- An address in the network. -/
def inside : IpAddr := .v4 #v[10, 1, 2, 3]

end Sample

/-- **A mistyped action lets everybody in** whom the row was to keep out: `denny` is
neither `deny` nor `allow`. -/
theorem mistyped_action_admits :
    Acl.decide ⟨fetch Sample.parseNet (Sample.access ['d', 'e', 'n', 'n', 'y'])⟩ Sample.inside =
      .allow ∧
    ∀ row ∈ (Sample.access ['d', 'e', 'n', 'n', 'y']).rows, row.enabled = true ∧
      (trim row.action).map Char.toLower ≠ ['a', 'l', 'l', 'o', 'w'] := by
  decide +kernel

/-- **A mistyped network lets everybody in**: the row is dropped, and an empty list
admits. -/
theorem mistyped_network_admits :
    (∀ ip, Acl.decide ⟨fetch Sample.parseNet Sample.cutNetwork⟩ ip = .allow) ∧
      ∀ row ∈ Sample.cutNetwork.rows, row.enabled = true ∧
        (trim row.action).map Char.toLower ≠ ['a', 'l', 'l', 'o', 'w'] := by
  have hempty : (fetch Sample.parseNet Sample.cutNetwork).isEmpty = true := by decide +kernel
  exact ⟨fun ip => if_pos hempty, by decide +kernel⟩

/-- A row that denies. -/
theorem deny_row_keeps_out :
    Acl.decide ⟨fetch Sample.parseNet (Sample.access ['D', 'e', 'n', 'y'])⟩ Sample.inside =
      .allow ↔
    ∃ row, (Sample.access ['D', 'e', 'n', 'y']).First Sample.parseNet Sample.inside row ∧
      (trim row.action).map Char.toLower ≠ ['d', 'e', 'n', 'y'] ∧
      (trim row.action).map Char.toLower ≠ ['r', 'e', 'f', 'u', 's', 'e'] :=
  allowed_iff_first ⟨_, List.mem_singleton_self _, rfl, by decide +kernel⟩

end Denis
