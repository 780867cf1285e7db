import Denis.Lib.IpText
import Denis.Lib.Lines
import Denis.Repo.Domains

/-!
# Lists of domains as text (`repo/cache.rs`)

`parseDomainList` reads a block list file line by line: a comment is cut off,
and of the tokens left either all but the first are domains, if the first is an
IP address, or only the first is. Domains that are not valid are skipped.

A `ListFile` is such a file before it is written down: what its lines list,
with their spaces and tabs, comments and line ends. Its domains are valid and
no plain line starts with an address, so its text can be read back
(`parse_render`): what is listed, in lower case, in order, each as often as it
is listed.
-/

namespace Denis

open Text

namespace Repo

/-! ## Reading -/

section Reading

variable (toLowercase : Str → Str)

/-- A token as a domain (`cache.rs:507`, `513`). -/
def tokenDomain (token : Str) : Str := toLowercase (trimEndMatches '.' token)

/-- The domains among the tokens of a line (`cache.rs:502–517`). -/
def tokenDomains : List Str → List Str
  | [] => []
  | first :: tokens =>
    if (IpText.parse first).isSome then
      (tokens.map (tokenDomain toLowercase)).filter isValidDomain
    else [tokenDomain toLowercase first].filter isValidDomain

/-- One pass of the loop over the lines. -/
def parseLine (line : Str) : List Str :=
  let line := trim (beforeFirst '#' line)
  if line = [] then [] else tokenDomains toLowercase (splitWhitespace line)

/-- `parse_domain_list` (`cache.rs:495–520`). -/
def parseDomainList (text : Str) : List Str := (lines text).flatMap (parseLine toLowercase)

variable {toLowercase}

/-- Only the words before the comment matter. -/
theorem parseLine_eq (line : Str) : parseLine toLowercase line =
    tokenDomains toLowercase (splitWhitespace (beforeFirst '#' line)) := by
  rw [parseLine]
  split
  · next hempty => rw [← splitWhitespace_trim, hempty, splitWhitespace_nil, tokenDomains]
  · rw [splitWhitespace_trim]

/-- White space at the end of a line does not. -/
theorem parseLine_append {gap : Str} (hgap : ∀ c ∈ gap, isWhitespace c = true) (line : Str) :
    parseLine toLowercase (line ++ gap) = parseLine toLowercase line := by
  have hhash : '#' ∉ gap := fun h => absurd (hgap _ h) (by decide)
  rw [parseLine_eq, parseLine_eq]
  rcases beforeFirst_cases '#' line with hline | ⟨body, comment, hbody, rfl⟩
  · have hboth : '#' ∉ line ++ gap := fun h => (List.mem_append.mp h).elim hline hhash
    rw [beforeFirst_of_not_mem hline, beforeFirst_of_not_mem hboth,
      splitWhitespace_append_gap hgap]
  · rw [List.append_assoc, List.cons_append, beforeFirst_append_cons hbody,
      beforeFirst_append_cons hbody]

/-- So line ends need not be stripped. -/
theorem parseDomainList_eq (text : Str) : parseDomainList toLowercase text =
    (splitInclusive '\n' text).flatMap (parseLine toLowercase) := by
  rw [parseDomainList, lines, List.flatMap_map]
  refine List.flatMap_congr fun line _ => ?_
  obtain ⟨ending, hline, hending⟩ := stripLineEnd_append line
  calc
    parseLine toLowercase (stripLineEnd line) =
        parseLine toLowercase (stripLineEnd line ++ ending) := (parseLine_append hending _).symm
    _ = parseLine toLowercase line := by rw [← hline]

end Reading

/-! ## Files -/

namespace ListFile

/-- What separates tokens. -/
inductive Blank
  | space
  | tab
  deriving DecidableEq

def Blank.char : Blank → Char
  | space => ' '
  | tab => '\t'

/-- Any number of blanks. -/
def blanks (gap : List Blank) : Str := gap.map Blank.char

/-- At least one. -/
structure Gap where
  first : Blank
  more : List Blank

def Gap.text (gap : Gap) : Str := blanks (gap.first :: gap.more)

/-- A token: a word outside comments. -/
structure Token where
  text : Str
  ne_nil : text ≠ []
  solid : ∀ c ∈ text, isWhitespace c = false ∧ c ≠ '#'

/-- A domain in any letters, and the dots after it. -/
structure Listed where
  domain : Str
  dots : Nat
  valid : isValidDomain domain = true

/-- An IP address. -/
structure Address where
  text : Str
  parses : (IpText.parse text).isSome = true

/-- A comment, after its `#`. -/
structure Comment where
  text : Str
  one_line : '\n' ∉ text

/-- What a line lists. A plain line may go on after its domain. -/
inductive Entries
  | none
  | plain (listed : Listed) (not_ip : IpText.parse listed.domain = Option.none)
      (others : List (Gap × Token))
  | hosts (address : Address) (domains : List (Gap × Listed))

/-- A line: blank or a comment if it lists nothing. -/
structure Line where
  lead : List Blank
  entries : Entries
  trail : List Blank
  comment : Option Comment

inductive LineEnd
  | lf
  | crlf
  deriving DecidableEq

/-- What is before the line feed. -/
def LineEnd.carriage : LineEnd → Str
  | lf => []
  | crlf => ['\r']

def LineEnd.text (ending : LineEnd) : Str := ending.carriage ++ ['\n']

end ListFile

open ListFile

/-- A file; its last line may lack its end. -/
structure ListFile where
  lines : List (Line × LineEnd)
  last : Option Line

namespace ListFile

/-! ### Their text -/

theorem Listed.validDomain (listed : Listed) : ValidDomain listed.domain :=
  validDomain_of_isValidDomain listed.valid

/-- The domain with its dots. -/
def Listed.token (listed : Listed) : Token where
  text := listed.domain ++ List.replicate listed.dots '.'
  ne_nil := by simp [listed.validDomain.ne_nil]
  solid := by
    intro c hc
    rcases List.mem_append.mp hc with hc | hc
    · refine ⟨listed.validDomain.not_whitespace hc, ?_⟩
      rintro rfl
      obtain ⟨-, hdot | hbyte⟩ := listed.validDomain.mem_cases hc
      · exact absurd hdot (by decide)
      · exact absurd hbyte (by decide)
    · rw [List.eq_of_mem_replicate hc]
      decide

/-- The address as a token. -/
def Address.token (address : Address) : Token where
  text := address.text
  ne_nil := by
    obtain ⟨addr, haddr⟩ := Option.isSome_iff_exists.mp address.parses
    obtain ⟨pre, c, htext, -⟩ := IpText.parse_takes haddr
    simp [htext]
  solid := by
    intro c hc
    obtain ⟨addr, haddr⟩ := Option.isSome_iff_exists.mp address.parses
    obtain ⟨pre, d, htext, hpre, hd, -⟩ := IpText.parse_takes haddr
    have haddress : IpText.IsAddrChar c := by
      rw [htext] at hc
      rcases List.mem_append.mp hc with hc | hc
      · exact hpre c hc
      · rwa [List.mem_singleton.mp hc]
    refine ⟨haddress.not_whitespace, ?_⟩
    rintro rfl
    exact absurd haddress (by unfold IpText.IsAddrChar; decide)

/-- Tokens set apart. -/
def row (first : Token) (rest : List (Gap × Token)) : Str :=
  first.text ++ rest.flatMap fun (gap, token) => gap.text ++ token.text

namespace Entries

/-- Their tokens: the first, and the others with what is before them. -/
def tokens : Entries → Option (Token × List (Gap × Token))
  | none => Option.none
  | plain listed _ others => some (listed.token, others)
  | hosts address domains =>
    some (address.token, domains.map fun (gap, listed) => (gap, listed.token))

def text (entries : Entries) : Str :=
  (entries.tokens.map fun (first, rest) => row first rest).getD []

/-- The domains listed, as they are spelled. -/
def domains : Entries → List Str
  | none => []
  | plain listed _ _ => [listed.domain]
  | hosts _ domains => domains.map fun (_, listed) => listed.domain

end Entries

namespace Line

/-- The line up to its comment. -/
def body (line : Line) : Str := blanks line.lead ++ line.entries.text ++ blanks line.trail

/-- The line without its end. -/
def text (line : Line) : Str :=
  line.body ++ (line.comment.map fun comment => '#' :: comment.text).getD []

end Line

/-- The file as text. -/
def render (file : ListFile) : Str :=
  (file.lines.flatMap fun (line, ending) => line.text ++ ending.text) ++
    (file.last.map Line.text).getD []

/-- The domains it lists, as they are spelled. -/
def domains (file : ListFile) : List Str :=
  (file.lines.flatMap fun (line, _) => line.entries.domains) ++
    (file.last.map fun line => line.entries.domains).getD []

/-! ### Its lines and words -/

/-- A character that ends neither a line nor the part of it before a comment. -/
def Inline (c : Char) : Prop := c ≠ '\n' ∧ c ≠ '#'

theorem blanks_white {gap : List Blank} : ∀ c ∈ blanks gap, isWhitespace c = true := by
  intro c hc
  obtain ⟨blank, -, rfl⟩ := List.mem_map.mp hc
  cases blank <;> decide

theorem blanks_inline {gap : List Blank} : ∀ c ∈ blanks gap, Inline c := by
  intro c hc
  obtain ⟨blank, -, rfl⟩ := List.mem_map.mp hc
  cases blank <;> exact ⟨by decide, by decide⟩

theorem Gap.isGap (gap : Gap) : IsGap gap.text := ⟨List.cons_ne_nil _ _, blanks_white⟩

theorem Token.isWord (token : Token) : IsWord token.text :=
  ⟨token.ne_nil, fun c hc => (token.solid c hc).1⟩

theorem Token.inline (token : Token) : ∀ c ∈ token.text, Inline c := by
  intro c hc
  obtain ⟨hsolid, hhash⟩ := token.solid c hc
  refine ⟨?_, hhash⟩
  rintro rfl
  exact absurd hsolid (by decide)

/-- **The words of a row** are its tokens. -/
theorem splitWhitespace_row (first : Token) (rest : List (Gap × Token)) :
    splitWhitespace (row first rest) = first.text :: rest.map fun p => p.2.text := by
  have hpairs : row first rest =
      first.text ++ (rest.map fun p => (p.1.text, p.2.text)).flatMap fun p => p.1 ++ p.2 := by
    rw [row, List.flatMap_map]
  rw [hpairs, splitWhitespace_words first.isWord, List.map_map]
  · rfl
  · intro p hp
    obtain ⟨q, -, rfl⟩ := List.mem_map.mp hp
    exact ⟨q.1.isGap, q.2.isWord⟩

theorem row_inline (first : Token) (rest : List (Gap × Token)) :
    ∀ c ∈ row first rest, Inline c := by
  intro c hc
  rcases List.mem_append.mp hc with hc | hc
  · exact first.inline c hc
  · obtain ⟨p, -, hc⟩ := List.mem_flatMap.mp hc
    rcases List.mem_append.mp hc with hc | hc
    · exact blanks_inline c hc
    · exact p.2.inline c hc

namespace Entries

/-- The tokens as text. -/
def words (entries : Entries) : List Str :=
  (entries.tokens.map fun (first, rest) => first.text :: rest.map fun p => p.2.text).getD []

theorem splitWhitespace_text (entries : Entries) :
    splitWhitespace entries.text = entries.words := by
  rw [text, words]
  cases entries.tokens with
  | none => exact splitWhitespace_nil
  | some row => exact splitWhitespace_row row.1 row.2

theorem text_inline (entries : Entries) : ∀ c ∈ entries.text, Inline c := by
  rw [text]
  cases entries.tokens with
  | none => simp
  | some row => exact row_inline row.1 row.2

end Entries

namespace Line

theorem splitWhitespace_body (line : Line) :
    splitWhitespace line.body = line.entries.words := by
  rw [body, splitWhitespace_append_gap blanks_white, splitWhitespace_gap_append blanks_white,
    Entries.splitWhitespace_text]

theorem body_inline (line : Line) : ∀ c ∈ line.body, Inline c := by
  intro c hc
  rcases List.mem_append.mp hc with hc | hc
  · rcases List.mem_append.mp hc with hc | hc
    · exact blanks_inline c hc
    · exact line.entries.text_inline c hc
  · exact blanks_inline c hc

/-- The comment of a line is what is cut off. -/
theorem beforeFirst_text (line : Line) : beforeFirst '#' line.text = line.body := by
  have hbody : '#' ∉ line.body := fun h => (line.body_inline _ h).2 rfl
  rw [text]
  cases line.comment with
  | none =>
    show beforeFirst '#' (line.body ++ []) = _
    rw [List.append_nil, beforeFirst_of_not_mem hbody]
  | some comment => exact beforeFirst_append_cons hbody comment.text

theorem newline_not_mem_text (line : Line) : '\n' ∉ line.text := by
  have hbody : '\n' ∉ line.body := fun h => (line.body_inline _ h).1 rfl
  intro h
  rcases List.mem_append.mp h with h | h
  · exact hbody h
  · cases hcomment : line.comment with
    | none =>
      rw [hcomment] at h
      cases h
    | some comment =>
      rw [hcomment] at h
      rcases List.mem_cons.mp h with h | h
      · exact absurd h (by decide)
      · exact comment.one_line h

end Line

/-! ### Reading it back -/

/-- With dots after it a domain is no address either. -/
theorem Listed.token_not_ip {listed : Listed} (h : IpText.parse listed.domain = none) :
    IpText.parse listed.token.text = none := by
  cases hdots : listed.dots with
  | zero =>
    show IpText.parse (listed.domain ++ List.replicate listed.dots '.') = none
    rwa [hdots, List.replicate_zero, List.append_nil]
  | succ n =>
    by_contra hsome
    obtain ⟨addr, haddr⟩ := Option.ne_none_iff_exists'.mp hsome
    obtain ⟨pre, c, htext, -, -, hc⟩ := IpText.parse_takes haddr
    -- addresses do not end in a dot
    have hend : listed.token.text = listed.domain ++ List.replicate n '.' ++ ['.'] := by
      show listed.domain ++ List.replicate listed.dots '.' = _
      rw [hdots, List.replicate_succ', List.append_assoc]
    have hlast := congrArg List.getLast? (htext.symm.trans hend)
    rw [List.getLast?_concat, List.getLast?_concat] at hlast
    exact hc (Option.some.inj hlast)

section

variable {toLowercase : Str → Str} (hascii : ∀ s, IsAscii s → toLowercase s = s.map Char.toLower)

include hascii

/-- A listed domain is read without its dots and in lower case. -/
theorem Listed.tokenDomain_token (listed : Listed) :
    tokenDomain toLowercase listed.token.text = listed.domain.map Char.toLower := by
  have hdot : listed.domain.getLast? ≠ some '.' := fun h =>
    (listed.validDomain.bare.finish '.' h).2 rfl
  show toLowercase (trimEndMatches '.' (listed.domain ++ List.replicate listed.dots '.')) = _
  rw [trimEndMatches_replicate, trimEndMatches_eq_self hdot, hascii _ listed.validDomain.ascii]

theorem Listed.isValidDomain_token (listed : Listed) :
    isValidDomain (tokenDomain toLowercase listed.token.text) = true := by
  rw [listed.tokenDomain_token hascii]
  exact isValidDomain_of_validDomain listed.validDomain.lower

/-- **The tokens of a line** are read as the domains it lists. -/
theorem Entries.tokenDomains_words (entries : Entries) :
    tokenDomains toLowercase entries.words = entries.domains.map (List.map Char.toLower) := by
  cases entries with
  | none => rfl
  | plain listed notIp others =>
    show tokenDomains toLowercase (listed.token.text :: others.map fun p => p.2.text) =
      [listed.domain.map Char.toLower]
    rw [tokenDomains, listed.token_not_ip notIp, Option.isSome_none, if_neg (by decide),
      List.filter_cons_of_pos (listed.isValidDomain_token hascii), listed.tokenDomain_token hascii]
    rfl
  | hosts address domains =>
    show tokenDomains toLowercase (address.text ::
      (domains.map fun p => (p.1, p.2.token)).map fun p => p.2.text) =
        (domains.map fun p => p.2.domain).map (List.map Char.toLower)
    rw [tokenDomains, if_pos address.parses, List.map_map, List.map_map, List.map_map,
      List.filter_eq_self.mpr]
    · exact List.map_congr_left fun p _ => p.2.tokenDomain_token hascii
    · intro d hd
      obtain ⟨p, -, rfl⟩ := List.mem_map.mp hd
      exact p.2.isValidDomain_token hascii

theorem Line.parseLine_text (line : Line) :
    parseLine toLowercase line.text = line.entries.domains.map (List.map Char.toLower) := by
  rw [parseLine_eq, line.beforeFirst_text, line.splitWhitespace_body,
    Entries.tokenDomains_words hascii]

/-- A line is read the same with its end. -/
theorem Line.parseLine_ended (line : Line) (ending : LineEnd) :
    parseLine toLowercase (line.text ++ ending.carriage ++ ['\n']) =
      line.entries.domains.map (List.map Char.toLower) := by
  have hwhite : ∀ c ∈ ending.carriage ++ ['\n'], isWhitespace c = true := by
    cases ending <;> simp [LineEnd.carriage, isWhitespace]
  rw [List.append_assoc, parseLine_append hwhite, line.parseLine_text hascii]

omit hascii in
/-- No text is no line. -/
theorem flatMap_last (s : Str) : (if s = [] then [] else [s]).flatMap (parseLine toLowercase) =
    parseLine toLowercase s := by
  split
  · next hempty => rw [hempty]; rfl
  · exact List.flatMap_singleton ..

/-- **Block list files are read faithfully**: whatever blanks, comments, line
ends and dots surround them, the domains read are those listed, in lower case, in
order and each as often as listed. -/
theorem parse_render (file : ListFile) :
    parseDomainList toLowercase file.render = file.domains.map (List.map Char.toLower) := by
  -- each line with its end is a piece, and its end is white space
  have hpieces : (file.lines.flatMap fun p => p.1.text ++ p.2.text) =
      (file.lines.map fun p => p.1.text ++ p.2.carriage).flatMap (· ++ ['\n']) := by
    rw [List.flatMap_map]
    refine List.flatMap_congr fun p _ => ?_
    rw [LineEnd.text, List.append_assoc]
  have hbody : ∀ body ∈ file.lines.map fun p => p.1.text ++ p.2.carriage, '\n' ∉ body := by
    intro body hbody hnewline
    obtain ⟨p, -, rfl⟩ := List.mem_map.mp hbody
    rcases List.mem_append.mp hnewline with h | h
    · exact p.1.newline_not_mem_text h
    · cases hending : p.2 <;> simp [hending, LineEnd.carriage] at h
  have hlast : '\n' ∉ (file.last.map Line.text).getD [] := by
    cases file.last with
    | none => exact List.not_mem_nil
    | some line => exact line.newline_not_mem_text
  rw [parseDomainList_eq, render, hpieces, splitInclusive_flatMap hbody hlast,
    List.flatMap_append, flatMap_last, domains, List.map_append, List.map_flatMap,
    List.map_map, List.flatMap_map]
  refine congrArg₂ _ (List.flatMap_congr fun p _ => p.1.parseLine_ended hascii p.2) ?_
  cases file.last with
  | none => rfl
  | some line => exact line.parseLine_text hascii

end

/-- A comment, `0.0.0.0 A.b..<TAB>a.b#x` and, without its end, ` C.d e `. -/
def hostsFile : ListFile where
  lines := [
    (⟨[], .none, [], some ⟨[' ', 'x'], by decide⟩⟩, .lf),
    (⟨[], .hosts ⟨['0', '.', '0', '.', '0', '.', '0'], by decide +kernel⟩
      [(⟨.space, []⟩, ⟨['A', '.', 'b'], 2, by decide +kernel⟩),
        (⟨.tab, []⟩, ⟨['a', '.', 'b'], 0, by decide +kernel⟩)], [],
      some ⟨['x'], by decide⟩⟩, .crlf)]
  last := some ⟨[.space], .plain ⟨['C', '.', 'd'], 0, by decide +kernel⟩ (by decide +kernel)
    [(⟨.space, []⟩, ⟨['e'], by decide, by simp [isWhitespace]⟩)], [.space], none⟩

/-- Its three domains. -/
theorem hostsFile_read :
    parseDomainList Lowercase.asciiOnly.toLowercase hostsFile.render =
      [['a', '.', 'b'], ['a', '.', 'b'], ['c', '.', 'd']] :=
  (parse_render (fun _ _ => rfl) hostsFile).trans (by decide +kernel)

end ListFile

end Repo

end Denis
