import Denis.Lib.Codec
import Denis.Lib.DomainName

/-!
# DNS messages (RFC 1035 §4.1)

A message is a header, questions and three sections of resource records; the
header says how many of each. `message` is its code, so `message.decode` reads the
messages and nothing else (`Codec.decode_eq_some`).

A name is labels, then the zero length byte of the root or a pointer to where the
name goes on (`EncodedName`). `resolve` follows the pointers, each to an offset
before the one it was found under. `Message.wellFormed` asks that every name of a
message resolves to one of at most 255 octets. Record data is left as bytes.
-/

namespace DnsMessage

open Text DomainName

/-! ## Numbers -/

/-- A byte is its number. -/
theorem ofNat_of_mod {b : UInt8} {n : Nat} (h : n % 256 = b.toNat) : UInt8.ofNat n = b := by
  refine UInt8.toNat_inj.mp ?_
  rw [UInt8.toNat_ofNat', ← h]

/-- A 16-bit number, big end first. -/
def u16 : Codec UInt8 UInt16 where
  write n := [UInt8.ofNat (n.toNat / 256), UInt8.ofNat n.toNat]
  read
    | hi :: lo :: rest => some (UInt16.ofNat (hi.toNat * 256 + lo.toNat), rest)
    | _ => none
  read_eq_some {input n rest} := by
    constructor
    · intro h
      split at h
      · next hi lo rest' =>
        obtain ⟨rfl, rfl⟩ := Prod.mk.inj (Option.some.inj h)
        have hhi := hi.toNat_lt
        have hlo := lo.toNat_lt
        have hnumber : (UInt16.ofNat (hi.toNat * 256 + lo.toNat)).toNat =
            hi.toNat * 256 + lo.toNat := by
          rw [UInt16.toNat_ofNat']
          omega
        rw [hnumber, @ofNat_of_mod hi _ (by omega), @ofNat_of_mod lo _ (by omega)]
        rfl
      · cases h
    · rintro rfl
      have hn := n.toNat_lt
      show some (UInt16.ofNat ((UInt8.ofNat (n.toNat / 256)).toNat * 256 +
        (UInt8.ofNat n.toNat).toNat), rest) = some (n, rest)
      congr 2
      refine UInt16.toNat_inj.mp ?_
      rw [UInt16.toNat_ofNat', UInt8.toNat_ofNat', UInt8.toNat_ofNat']
      omega

/-- The number of four bytes, big end first. -/
def beNumber (b0 b1 b2 b3 : UInt8) : Nat :=
  ((b0.toNat * 256 + b1.toNat) * 256 + b2.toNat) * 256 + b3.toNat

theorem beNumber_toNat (b0 b1 b2 b3 : UInt8) :
    (UInt32.ofNat (beNumber b0 b1 b2 b3)).toNat = beNumber b0 b1 b2 b3 := by
  have h0 := b0.toNat_lt
  have h1 := b1.toNat_lt
  have h2 := b2.toNat_lt
  have h3 := b3.toNat_lt
  rw [UInt32.toNat_ofNat', beNumber]
  omega

/-- A 32-bit number, big end first. -/
def u32 : Codec UInt8 UInt32 where
  write n := [UInt8.ofNat (n.toNat / 16777216), UInt8.ofNat (n.toNat / 65536),
    UInt8.ofNat (n.toNat / 256), UInt8.ofNat n.toNat]
  read
    | b0 :: b1 :: b2 :: b3 :: rest => some (UInt32.ofNat (beNumber b0 b1 b2 b3), rest)
    | _ => none
  read_eq_some {input n rest} := by
    constructor
    · intro h
      split at h
      · next b0 b1 b2 b3 rest' =>
        obtain ⟨rfl, rfl⟩ := Prod.mk.inj (Option.some.inj h)
        have h0 := b0.toNat_lt
        have h1 := b1.toNat_lt
        have h2 := b2.toNat_lt
        have h3 := b3.toNat_lt
        rw [beNumber_toNat, beNumber, @ofNat_of_mod b0 _ (by omega),
          @ofNat_of_mod b1 _ (by omega), @ofNat_of_mod b2 _ (by omega),
          @ofNat_of_mod b3 _ (by omega)]
        rfl
      · cases h
    · rintro rfl
      have hn := n.toNat_lt
      show some (UInt32.ofNat (beNumber _ _ _ _), rest) = some (n, rest)
      congr 2
      refine UInt32.toNat_inj.mp ?_
      rw [UInt32.toNat_ofNat', beNumber, UInt8.toNat_ofNat', UInt8.toNat_ofNat',
        UInt8.toNat_ofNat', UInt8.toNat_ofNat']
      omega

@[simp] theorem u16_write_length (n : UInt16) : (u16.write n).length = 2 := rfl

/-- Two bytes are written as they were read. -/
theorem u16_write_bytes (hi lo : UInt8) :
    u16.write (UInt16.ofNat (hi.toNat * 256 + lo.toNat)) = [hi, lo] := by
  have hread : u16.read [hi, lo] = some (UInt16.ofNat (hi.toNat * 256 + lo.toNat), []) := rfl
  have hbytes := u16.read_eq_some.mp hread
  rw [List.append_nil] at hbytes
  exact hbytes.symm

theorem u16_write_inj {m n : UInt16} (h : u16.write m = u16.write n) : m = n :=
  (u16.write_append_inj (congrArg (· ++ []) h)).1

@[simp] theorem u32_write_length (n : UInt32) : (u32.write n).length = 4 := rfl

/-! ## Names -/

/-- What ends the labels of a name: the root, or a pointer to the rest of it. -/
inductive Ending
  | root
  | pointer (offset : Fin 16384)
  deriving DecidableEq

/-- A name as it stands in a message. -/
structure EncodedName where
  labels : List Label
  ending : Ending
  deriving DecidableEq

/-- A name that is all pointer. -/
def EncodedName.pointer (offset : Nat) : EncodedName := ⟨[], .pointer (Fin.ofNat 16384 offset)⟩

/-- The length of a section, as its count in the header. -/
theorem length_eq_count {α : Type} {xs : List α} (h : xs.length < 65536) :
    xs.length = (UInt16.ofNat xs.length).toNat := by
  rw [UInt16.toNat_ofNat']
  omega

namespace Ending

def write : Ending → Bytes
  | .root => [0]
  | .pointer offset => [UInt8.ofNat (192 + offset.val / 256), UInt8.ofNat offset.val]

/-- A pointer, from its two bytes. -/
def ofBytes (hi lo : UInt8) : Ending :=
  .pointer (Fin.ofNat 16384 (hi.toNat * 256 + lo.toNat))

theorem write_ofBytes {hi : UInt8} (lo : UInt8) (h : 192 ≤ hi.toNat) :
    (ofBytes hi lo).write = [hi, lo] := by
  have hhi := hi.toNat_lt
  have hlo := lo.toNat_lt
  show [UInt8.ofNat (192 + (hi.toNat * 256 + lo.toNat) % 16384 / 256),
    UInt8.ofNat ((hi.toNat * 256 + lo.toNat) % 16384)] = [hi, lo]
  rw [@ofNat_of_mod hi _ (by omega), @ofNat_of_mod lo _ (by omega)]

/-- An ending starts with a byte that is the length of no label. -/
theorem write_head (ending : Ending) : ∃ b rest, ending.write = b :: rest ∧
    (b = 0 ∨ 63 < b.toNat) := by
  cases ending with
  | root => exact ⟨0, [], rfl, .inl rfl⟩
  | pointer offset =>
    have hoffset := offset.isLt
    refine ⟨_, _, rfl, .inr ?_⟩
    rw [UInt8.toNat_ofNat']
    omega

theorem ofBytes_write (offset : Fin 16384) :
    ofBytes (UInt8.ofNat (192 + offset.val / 256)) (UInt8.ofNat offset.val) =
      .pointer offset := by
  have hoffset := offset.isLt
  refine congrArg Ending.pointer (Fin.ext ?_)
  show ((UInt8.ofNat (192 + offset.val / 256)).toNat * 256 +
    (UInt8.ofNat offset.val).toNat) % 16384 = offset.val
  rw [UInt8.toNat_ofNat', UInt8.toNat_ofNat']
  omega

end Ending

namespace EncodedName

def write (name : EncodedName) : Bytes := wire name.labels ++ name.ending.write

/-- Read labels up to a zero length byte or a pointer. -/
def read : Bytes → Option (EncodedName × Bytes)
  | [] => none
  | n :: rest =>
    if hzero : n.toNat = 0 then some (⟨[], .root⟩, rest)
    else if 192 ≤ n.toNat then rest.head?.map fun lo => (⟨[], .ofBytes n lo⟩, rest.tail)
    else if hlong : 63 < n.toNat then none
    else if hshort : rest.length < n.toNat then none
    else
      match read (rest.drop n.toNat) with
      | none => none
      | some (name, after) =>
        some (⟨⟨rest.take n.toNat, Label.take_pos hzero hshort, Label.take_le rest hlong⟩ ::
          name.labels, name.ending⟩, after)
termination_by bs => bs.length
decreasing_by
  rw [List.length_drop, List.length_cons]
  omega

/-- No name is without bytes. -/
theorem write_cons (name : EncodedName) : ∃ b bs, name.write = b :: bs := by
  obtain ⟨b, rest, hending, -⟩ := name.ending.write_head
  obtain ⟨labels, ending⟩ := name
  cases labels with
  | nil => exact ⟨b, rest, hending⟩
  | cons l labels => exact ⟨_, _, rfl⟩

/-- Only the root takes one byte. -/
theorem eq_root_of_length {name : EncodedName} (h : name.write.length ≤ 1) :
    name = ⟨[], .root⟩ := by
  obtain ⟨labels, ending⟩ := name
  obtain ⟨b, rest, hending, -⟩ := ending.write_head
  cases labels with
  | nil =>
    cases ending with
    | root => rfl
    | pointer offset => exact absurd h (by simp [write, Ending.write])
  | cons l labels =>
    rw [write, wire_cons, hending] at h
    simp at h

/-- Without labels, the ending is read. -/
theorem read_ending (ending : Ending) (rest : Bytes) :
    read (ending.write ++ rest) = some (⟨[], ending⟩, rest) := by
  cases ending with
  | root => rw [Ending.write, List.singleton_append, read]; rfl
  | pointer offset =>
    have hoffset := offset.isLt
    have hhi : (UInt8.ofNat (192 + offset.val / 256)).toNat = 192 + offset.val / 256 := by
      rw [UInt8.toNat_ofNat']
      omega
    rw [Ending.write, List.cons_append, read, dif_neg (by omega), if_pos (by omega)]
    show some (EncodedName.mk [] (Ending.ofBytes _ _), rest) = _
    rw [Ending.ofBytes_write]

/-- A label is read, and then the rest of the name. -/
theorem read_label (l : Label) {name : EncodedName} {bs rest : Bytes}
    (h : read bs = some (name, rest)) :
    read (l.wire ++ bs) = some (⟨l :: name.labels, name.ending⟩, rest) := by
  have hlen := l.length_toNat
  have hpos := l.pos
  have hle := l.le
  rw [Label.wire, List.cons_append, read, dif_neg (by omega), if_neg (by omega),
    dif_neg (by omega), dif_neg (by rw [hlen, List.length_append]; omega)]
  simp only [hlen, List.drop_left, h, List.take_left]

theorem read_write (name : EncodedName) (rest : Bytes) :
    read (name.write ++ rest) = some (name, rest) := by
  obtain ⟨labels, ending⟩ := name
  induction labels with
  | nil => exact read_ending ending rest
  | cons l labels ih =>
    have hlabel := read_label l ih
    rwa [write, List.append_assoc, ← List.append_assoc l.wire, ← List.append_assoc] at hlabel

theorem eq_write_of_read {bs rest : Bytes} {name : EncodedName}
    (h : read bs = some (name, rest)) : bs = name.write ++ rest := by
  induction bs using read.induct generalizing name with
  | case1 => rw [read] at h; cases h
  | case2 n after hzero =>
    rw [read, dif_pos hzero] at h
    obtain ⟨rfl, rfl⟩ := Prod.mk.inj (Option.some.inj h)
    rw [show n = 0 from UInt8.toNat_inj.mp hzero]
    rfl
  | case3 n after hzero hpointer =>
    rw [read, dif_neg hzero, if_pos hpointer] at h
    cases after with
    | nil => cases h
    | cons lo after =>
      obtain ⟨rfl, rfl⟩ := Prod.mk.inj (Option.some.inj h)
      show _ = (Ending.ofBytes n lo).write ++ after
      rw [Ending.write_ofBytes lo hpointer]
      rfl
  | case4 n after hzero hpointer hlong =>
    rw [read, dif_neg hzero, if_neg hpointer, dif_pos hlong] at h
    cases h
  | case5 n after hzero hpointer hlong hshort =>
    rw [read, dif_neg hzero, if_neg hpointer, dif_neg hlong, dif_pos hshort] at h
    cases h
  | case6 n after hzero hpointer hlong hshort hnone ih =>
    rw [read, dif_neg hzero, if_neg hpointer, dif_neg hlong, dif_neg hshort, hnone] at h
    cases h
  | case7 n after hzero hpointer hlong hshort tail after' hsome ih =>
    rw [read, dif_neg hzero, if_neg hpointer, dif_neg hlong, dif_neg hshort] at h
    simp only [hsome] at h
    obtain ⟨rfl, rfl⟩ := Prod.mk.inj (Option.some.inj h)
    have hrest := ih hsome
    have hlen : (after.take n.toNat).length = n.toNat := by
      rw [List.length_take]
      omega
    rw [write, wire_cons, hlen, UInt8.ofNat_toNat, List.cons_append, List.append_assoc,
      List.cons_append, List.append_assoc]
    show n :: after = n :: (after.take n.toNat ++ (tail.write ++ after'))
    rw [← hrest, List.take_append_drop]

end EncodedName

/-- Names, as they stand in a message. -/
def encodedName : Codec UInt8 EncodedName where
  write := EncodedName.write
  read := EncodedName.read
  read_eq_some {_ name rest} :=
    ⟨EncodedName.eq_write_of_read, fun h => h ▸ EncodedName.read_write name rest⟩

/-! ## Questions, records and messages -/

/-- A question: name, type and class. -/
structure Question where
  name : EncodedName
  qtype : UInt16
  qclass : UInt16
  deriving DecidableEq

def question : Codec UInt8 Question :=
  (encodedName.pair (u16.pair u16)).ofEquiv
    { toFun x := ⟨x.1, x.2.1, x.2.2⟩
      invFun q := (q.name, q.qtype, q.qclass)
      left_inv _ := rfl
      right_inv _ := rfl }

/-- Record data: as many bytes as a 16-bit length can count. -/
def Data : Type := Σ n : UInt16, {bs : Bytes // bs.length = n.toNat}

/-- Data behind its length. -/
def data : Codec UInt8 Data := u16.sigma fun n => Codec.exactly n.toNat

/-- The bytes of record data. -/
def Data.bytes (d : Data) : Bytes := d.2.1

/-- Data of given bytes, if they are not too many. -/
def Data.ofBytes (bs : Bytes) (h : bs.length < 65536) : Data :=
  ⟨UInt16.ofNat bs.length, bs, by rw [UInt16.toNat_ofNat']; omega⟩

/-- A resource record. -/
structure Record where
  owner : EncodedName
  rtype : UInt16
  rclass : UInt16
  ttl : UInt32
  data : Data

/-- An empty section. -/
def noRecords : {rs : List Record // rs.length = (0 : UInt16).toNat} := ⟨[], rfl⟩

def record : Codec UInt8 Record :=
  (encodedName.pair (u16.pair (u16.pair (u32.pair data)))).ofEquiv
    { toFun x := ⟨x.1, x.2.1, x.2.2.1, x.2.2.2.1, x.2.2.2.2⟩
      invFun r := (r.owner, r.rtype, r.rclass, r.ttl, r.data)
      left_inv _ := rfl
      right_inv _ := rfl }

/-- A header: id, two bytes of flags, and how many questions, answers, authority
records and additional records follow. -/
structure Header where
  id : UInt16
  flags : UInt8 × UInt8
  qdcount : UInt16
  ancount : UInt16
  nscount : UInt16
  arcount : UInt16
  deriving DecidableEq

/-- One byte. -/
def byte : Codec UInt8 UInt8 where
  write b := [b]
  read
    | [] => none
    | b :: rest => some (b, rest)
  read_eq_some {input b rest} := by
    cases input with
    | nil => simp
    | cons a input => simp

def header : Codec UInt8 Header :=
  (u16.pair ((byte.pair byte).pair (u16.pair (u16.pair (u16.pair u16))))).ofEquiv
    { toFun x := ⟨x.1, x.2.1, x.2.2.1, x.2.2.2.1, x.2.2.2.2.1, x.2.2.2.2.2⟩
      invFun h := (h.id, h.flags, h.qdcount, h.ancount, h.nscount, h.arcount)
      left_inv _ := rfl
      right_inv _ := rfl }

/-- A message: as many entries in each section as its header says. -/
structure Message where
  header : Header
  questions : {qs : List Question // qs.length = header.qdcount.toNat}
  answers : {rs : List Record // rs.length = header.ancount.toNat}
  authorities : {rs : List Record // rs.length = header.nscount.toNat}
  additionals : {rs : List Record // rs.length = header.arcount.toNat}

def message : Codec UInt8 Message :=
  (header.sigma fun h =>
    (question.many h.qdcount.toNat).pair ((record.many h.ancount.toNat).pair
      ((record.many h.nscount.toNat).pair (record.many h.arcount.toNat)))).ofEquiv
    { toFun x := ⟨x.1, x.2.1, x.2.2.1, x.2.2.2.1, x.2.2.2.2⟩
      invFun m := ⟨m.header, m.questions, m.answers, m.authorities, m.additionals⟩
      left_inv _ := rfl
      right_inv _ := rfl }

variable (q : Question) (r : Record) (h : Header) (m : Message)

theorem question_write :
    question.write q = q.name.write ++ (u16.write q.qtype ++ u16.write q.qclass) := rfl

theorem record_write : record.write r = r.owner.write ++ (u16.write r.rtype ++
    (u16.write r.rclass ++ (u32.write r.ttl ++ (u16.write r.data.1 ++ r.data.bytes)))) := rfl

theorem header_write : header.write h = u16.write h.id ++ ([h.flags.1, h.flags.2] ++
    (u16.write h.qdcount ++ (u16.write h.ancount ++ (u16.write h.nscount ++
      u16.write h.arcount)))) := rfl

theorem message_write : message.write m = header.write m.header ++
    (m.questions.1.flatMap question.write ++ (m.answers.1.flatMap record.write ++
      (m.authorities.1.flatMap record.write ++ m.additionals.1.flatMap record.write))) := rfl

@[simp] theorem header_write_length : (header.write h).length = 12 := rfl

theorem question_write_length :
    (question.write q).length = q.name.write.length + 4 := by
  simp [question_write]

theorem record_write_length :
    (record.write r).length = r.owner.write.length + 10 + r.data.bytes.length := by
  simp only [record_write, List.length_append, u16_write_length, u32_write_length]
  omega

/-! ## Flags -/

namespace Header

/-- Whether the message is a response. -/
def qr : Bool := 128 ≤ h.flags.1

def opcode : UInt8 := (h.flags.1 >>> 3) &&& 0x0F

/-- Whether recursion is desired. -/
def rd : Bool := h.flags.1 &&& 1 = 1

def rcode : UInt8 := h.flags.2 &&& 0x0F

end Header

/-! ## Names of a message -/

/-- The labels of a name that stands at `start`, pointers followed. -/
def resolve (msg : Bytes) (start : Nat) (name : EncodedName) : Option (List Label) :=
  match name.ending with
  | .root => some name.labels
  | .pointer offset =>
    if offset.val < start then
      match EncodedName.read (msg.drop offset.val) with
      | none => none
      | some (tail, _) => (resolve msg offset.val tail).map (name.labels ++ ·)
    else none
termination_by start

theorem resolve_root (msg : Bytes) (start : Nat) (ls : List Label) :
    resolve msg start ⟨ls, .root⟩ = some ls := by
  rw [resolve]

/-- A pointer to a name that is written out before. -/
theorem resolve_pointer {msg rest : Bytes} {start : Nat} {offset : Fin 16384} {ls : List Label}
    (hbefore : offset.val < start)
    (htarget : msg.drop offset.val = encodedName.write ⟨ls, .root⟩ ++ rest) :
    resolve msg start ⟨[], .pointer offset⟩ = some ls := by
  have hread : EncodedName.read (msg.drop offset.val) = some (⟨ls, .root⟩, rest) :=
    encodedName.read_eq_some.mpr htarget
  rw [resolve]
  simp only [if_pos hbefore, hread, resolve_root]
  rfl

/-- Names resolve to their labels and more. -/
theorem prefix_resolve {msg : Bytes} {start : Nat} {name : EncodedName} {ls : List Label}
    (h : resolve msg start name = some ls) : name.labels <+: ls := by
  rw [resolve] at h
  split at h
  · obtain rfl := Option.some.inj h
    exact List.prefix_rfl
  · split at h
    · split at h
      · cases h
      · obtain ⟨tail, -, rfl⟩ := Option.map_eq_some_iff.mp h
        exact List.prefix_append ..
    · cases h

/-- Names and where they stand, from the sizes of what holds them. -/
def placed (start : Nat) : List (EncodedName × Nat) → List (Nat × EncodedName)
  | [] => []
  | (name, size) :: rest => (start, name) :: placed (start + size) rest

namespace Message

variable {m}

/-- The names of the questions and the owners of the records. -/
def names (m : Message) : List (Nat × EncodedName) :=
  placed 12 (m.questions.1.map (fun q => (q.name, (question.write q).length)) ++
    (m.answers.1 ++ m.authorities.1 ++ m.additionals.1).map
      fun r => (r.owner, (record.write r).length))

/-- A name of at most 255 octets, its end counted. -/
def isName (msg : Bytes) (start : Nat) (name : EncodedName) : Bool :=
  match resolve msg start name with
  | none => false
  | some ls => (wire ls).length + 1 ≤ 255

/-- Every name can be followed to its end and is not too long. -/
def wellFormed (m : Message) : Bool :=
  m.names.all fun x => isName (message.write m) x.1 x.2

end Message

end DnsMessage
