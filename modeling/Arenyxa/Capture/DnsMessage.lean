import Arenyxa.Lib.Words
import Mathlib.Data.List.Basic

/-! The decoder of DNS messages. -/

namespace Arenyxa.Capture.Dns

open Words

abbrev Bytes := List UInt8

/-- Functions of the standard library. -/
structure Library where
  /-- A label as ASCII or, where it is not, as UTF-8 with replacements. -/
  label : Bytes → String
  ascii : Bytes → String
  utf8 : Bytes → String
  hex : Bytes → String
  ipv4 : Bytes → String
  ipv6 : Bytes → String
  sha256 : Bytes → String
  label_length : ∀ bytes, (label bytes).length ≤ bytes.length

def maxQuestions : Nat := 64

def maxRecords : Nat := 256

def maxNameDepth : Nat := 128

def maxNameChars : Nat := 255

def maxTxtParts : Nat := 32

def dnsTypes : List (Nat × String) :=
  [(1, "A"), (2, "NS"), (5, "CNAME"), (6, "SOA"), (12, "PTR"), (15, "MX"), (16, "TXT"), (28, "AAAA"), (33, "SRV"),
   (41, "OPT"), (43, "DS"), (46, "RRSIG"), (47, "NSEC"), (48, "DNSKEY"), (52, "TLSA"), (64, "SVCB"), (65, "HTTPS"),
   (257, "CAA")]

def dnsClasses : List (Nat × String) := [(1, "IN"), (3, "CH"), (4, "HS"), (255, "ANY")]

def svcbKeys : List (Nat × String) :=
  [(0, "mandatory"), (1, "alpn"), (2, "no-default-alpn"), (3, "port"), (4, "ipv4hint"), (5, "ech"), (6, "ipv6hint"),
   (7, "dohpath"), (8, "ohttp"), (9, "tls-supported-groups"), (10, "docpath"), (11, "pvd"), (12, "oots")]

/-- `text[:n]` -/
def firstChars (n : Nat) (text : String) : String := String.ofList (text.toList.take n)

/-- The bytes from one position up to another. -/
def slice (data : Bytes) (start stop : Nat) : Bytes := (data.take stop).drop start

/-- The number of so many bytes at a position. -/
def number (data : Bytes) (position width : Nat) : Nat := value ((data.drop position).take width)

section Names

variable (lib : Library) (data : Bytes)

/-- The text of a name. -/
def nameText (labels : List String) : String := firstChars maxNameChars (".".intercalate labels)

/-- The loop of `name`. -/
def nameLoop : Nat → Nat → Nat → Bool → List Nat → List String → Except String (String × Nat)
  | 0, _, _, _, _, _ => .error "DNS name depth budget exceeded"
  | depth + 1, position, resume, jumped, seen, labels =>
    match data[position]? with
    | none => .error "truncated DNS name"
    | some byte =>
      let length := byte.toNat
      if length = 0 then .ok (nameText labels, if jumped then resume else position + 1)
      else if 0xc0 ≤ length then
        match data[position + 1]? with
        | none => .error "truncated DNS compression pointer"
        | some low =>
          let pointer := length % 0x40 * 256 + low.toNat
          if data.length ≤ pointer ∨ pointer ∈ seen then .error "invalid DNS compression pointer"
          else nameLoop depth pointer (if jumped then resume else position + 2) true (pointer :: seen) labels
      else if 0x40 ≤ length then .error "invalid DNS label length"
      else if data.length < position + 1 + length then .error "invalid DNS label"
      else
        let labels := labels ++ [lib.label (slice data (position + 1) (position + 1 + length))]
        if maxNameChars < (labels.map fun label => label.length + 1).sum then .error "DNS name exceeds budget"
        else
          let position := position + 1 + length
          nameLoop depth position (if jumped then resume else position) jumped seen labels

def name (cursor : Nat) : Except String (String × Nat) := nameLoop lib data maxNameDepth cursor cursor false [] []

/-- `_rdata_name` -/
def rdataName (cursor stop : Nat) : Except String (String × Nat) := do
  let (name, resume) ← name lib data cursor
  if stop < resume then .error "DNS name exceeds resource record boundary" else return (name, resume)

end Names

/-- What a parameter of a service says. -/
inductive ParameterValue
  | mandatoryKeys (keys : List Nat)
  | alpn (names : List String) (malformed : Bool)
  | enabled (enabled malformed : Bool)
  | port (port : Nat)
  | hints (addresses : List String)
  | ech (bytes : Nat) (sha256 : String)
  | text (text : String)
  | ohttp (enabled : Bool)
  | groups (groups : List Nat)
  | valueHex (hex : String)

structure Parameter where
  key : Nat
  name : String
  length : Nat
  value : ParameterValue

/-- The fields of a record's data. -/
inductive Rdata
  | address (text : String)
  | target (target : String)
  | mx (preference : Nat) (exchange : String)
  | srv (priority weight port : Nat) (target : String)
  | soa (mname rname : String) (serial refresh retry expire minimum : Nat)
  | txt (values : List String)
  | opt (udpPayloadSize extendedRcode ednsVersion : Nat) (dnssecOk : Bool) (optionBytes : Nat)
  | ds (keyTag algorithm digestType : Nat) (digest : String)
  | dnskey (flags protocol algorithm publicKeyBytes : Nat)
  | tlsa (usage selector matchingType : Nat) (associationData : String)
  | svcb (priority : Nat) (target : String) (parameterBytes : Nat) (parameters : List Parameter)
  | caa (flags : Nat) (tag value : String)
  | hex (hex : String)

section Raw

variable (lib : Library)

/-- Consecutive parts of so many bytes. -/
def chunks (size : Nat) : Nat → Bytes → List Bytes
  | 0, _ => []
  | n + 1, bytes => bytes.take size :: chunks size n (bytes.drop size)

/-- The strings of a TXT record, and of a list of protocols, where an empty one is malformed. -/
def txtStrings : Nat → Bytes → List String
  | 0, _ => []
  | _ + 1, [] => []
  | parts + 1, size :: rest =>
    if rest.length < size.toNat then []
    else firstChars 1024 (lib.utf8 (rest.take size.toNat)) :: txtStrings parts (rest.drop size.toNat)

def alpnNames : Nat → Bytes → List String × Bool
  | 0, _ => ([], false)
  | _ + 1, [] => ([], false)
  | names + 1, size :: rest =>
    if size.toNat = 0 ∨ rest.length < size.toNat then ([], true)
    else
      let later := alpnNames names (rest.drop size.toNat)
      (firstChars 255 (lib.ascii (rest.take size.toNat)) :: later.1, later.2)

def parameterValue (key : Nat) (bytes : Bytes) : ParameterValue :=
  let length := bytes.length
  if key = 0 ∧ length % 2 = 0 then .mandatoryKeys (((chunks 2 (length / 2) bytes).map value).take 64)
  else if key = 1 then .alpn (alpnNames lib 32 bytes).1 (alpnNames lib 32 bytes).2
  else if key = 2 then .enabled (length = 0) (length ≠ 0)
  else if key = 3 ∧ length = 2 then .port (value bytes)
  else if key = 4 ∧ length ≠ 0 ∧ length % 4 = 0 then .hints (((chunks 4 (length / 4) bytes).map lib.ipv4).take 64)
  else if key = 5 then .ech length (if length = 0 then "" else lib.sha256 bytes)
  else if key = 6 ∧ length ≠ 0 ∧ length % 16 = 0 then .hints (((chunks 16 (length / 16) bytes).map lib.ipv6).take 64)
  else if key = 7 ∨ key = 10 ∨ key = 11 then .text (firstChars 2048 (lib.utf8 bytes))
  else if key = 8 then .ohttp (length = 0)
  else if key = 9 ∧ length % 2 = 0 then .groups (((chunks 2 (length / 2) bytes).map value).take 64)
  else if key = 12 then .valueHex (firstChars 512 (lib.hex bytes))
  else .valueHex (firstChars 2048 (lib.hex bytes))

/-- `_svcb_params`, of the bytes between its cursor and the end. -/
def svcbParams : Nat → Bytes → Except String (List Parameter)
  | 0, bytes => if bytes = [] then .ok [] else .error "invalid SVCB service parameter tail"
  | rows + 1, bytes =>
    if bytes.length < 4 then if bytes = [] then .ok [] else .error "invalid SVCB service parameter tail"
    else
      let key := number bytes 0 2
      let length := number bytes 2 2
      if bytes.length < 4 + length then .error "truncated SVCB service parameter"
      else do
        let rest ← svcbParams rows (bytes.drop (4 + length))
        return ⟨key, (svcbKeys.lookup key).getD s!"key{key}", length,
          parameterValue lib key (slice bytes 4 (4 + length))⟩ :: rest

def maxParameters : Nat := 64

/-- The branches of `_rdata` that read no name. -/
def rawFields (rrType rrClass ttl : Nat) (raw : Bytes) : Rdata :=
  if rrType = 1 ∧ raw.length = 4 then .address (lib.ipv4 raw)
  else if rrType = 28 ∧ raw.length = 16 then .address (lib.ipv6 raw)
  else if rrType = 16 then .txt (txtStrings lib maxTxtParts raw)
  else if rrType = 41 then
    .opt rrClass (ttl / 2 ^ 24 % 256) (ttl / 2 ^ 16 % 256) (ttl / 2 ^ 15 % 2 = 1) raw.length
  else if rrType = 43 ∧ 4 ≤ raw.length then
    .ds (number raw 0 2) (number raw 2 1) (number raw 3 1) (firstChars 2048 (lib.hex (raw.drop 4)))
  else if rrType = 48 ∧ 4 ≤ raw.length then
    .dnskey (number raw 0 2) (number raw 2 1) (number raw 3 1) (raw.length - 4)
  else if rrType = 52 ∧ 3 ≤ raw.length then
    .tlsa (number raw 0 1) (number raw 1 1) (number raw 2 1) (firstChars 2048 (lib.hex (raw.drop 3)))
  else if rrType = 257 ∧ 2 ≤ raw.length ∧ 2 + number raw 1 1 ≤ raw.length then
    .caa (number raw 0 1) (lib.ascii (slice raw 2 (2 + number raw 1 1)))
      (firstChars 2048 (lib.utf8 (raw.drop (2 + number raw 1 1))))
  else .hex (firstChars 2048 (lib.hex raw))

end Raw

/-- The types whose data is a name. -/
def nameTypes : List Nat := [2, 5, 12]

/-- The types whose data is a priority, a name and parameters. -/
def svcbTypes : List Nat := [64, 65]

section Messages

variable (lib : Library) (data : Bytes)

/-- `_rdata`; its branches for types with names come first, since no type has two branches. -/
def rdata (rrType rrClass ttl start stop : Nat) : Except String Rdata :=
  let raw := slice data start stop
  if rrType ∈ nameTypes then do
    let (target, _) ← rdataName lib data start stop
    return .target target
  else if rrType = 15 ∧ 3 ≤ raw.length then do
    let (exchange, _) ← rdataName lib data (start + 2) stop
    return .mx (number data start 2) exchange
  else if rrType = 33 ∧ 7 ≤ raw.length then do
    let (target, _) ← rdataName lib data (start + 6) stop
    return .srv (number data start 2) (number data (start + 2) 2) (number data (start + 4) 2) target
  else if rrType = 6 ∧ 22 ≤ raw.length then do
    let (mname, middle) ← rdataName lib data start stop
    let (rname, position) ← rdataName lib data middle stop
    if position + 20 ≤ stop then
      return .soa mname rname (number data position 4) (number data (position + 4) 4) (number data (position + 8) 4)
        (number data (position + 12) 4) (number data (position + 16) 4)
    else return rawFields lib rrType rrClass ttl raw
  else if rrType ∈ svcbTypes ∧ 3 ≤ raw.length then do
    let (target, position) ← rdataName lib data (start + 2) stop
    let parameters ← svcbParams lib maxParameters (slice data position stop)
    return .svcb (number data start 2) target (stop - position) parameters
  else return rawFields lib rrType rrClass ttl raw

structure QuestionRow where
  name : String
  type : Nat
  typeName : String
  class' : Nat
  className : String

structure RecordRow where
  name : String
  type : Nat
  typeName : String
  class' : Nat
  className : String
  ttl : Nat
  rdlength : Nat
  fields : Rdata

def typeName (type : Nat) : String := (dnsTypes.lookup type).getD (toString type)

def className (class' : Nat) : String := (dnsClasses.lookup class').getD (toString class')

def question (cursor : Nat) : Except String (QuestionRow × Nat) := do
  let (name, cursor) ← name lib data cursor
  if data.length < cursor + 4 then .error "truncated DNS question"
  let type := number data cursor 2
  let class' := number data (cursor + 2) 2
  return (⟨name, type, typeName type, class', className class'⟩, cursor + 4)

def questionRows : Nat → Nat → Except String (List QuestionRow × Nat)
  | 0, cursor => return ([], cursor)
  | count + 1, cursor => do
    let (row, cursor) ← question lib data cursor
    let (rows, cursor) ← questionRows count cursor
    return (row :: rows, cursor)

def record (cursor : Nat) : Except String (RecordRow × Nat) := do
  let (owner, cursor) ← name lib data cursor
  if data.length < cursor + 10 then .error "truncated DNS resource record"
  let rrType := number data cursor 2
  let rrClass := number data (cursor + 2) 2
  let ttl := number data (cursor + 4) 4
  let rdlength := number data (cursor + 8) 2
  let start := cursor + 10
  let stop := start + rdlength
  if data.length < stop then .error "truncated DNS rdata"
  let fields ← rdata lib data rrType rrClass ttl start stop
  return (⟨owner, rrType, typeName rrType, rrClass, className rrClass, ttl, rdlength, fields⟩, stop)

/-- `_records` -/
def recordRows : Nat → Nat → Except String (List RecordRow × Nat)
  | 0, cursor => return ([], cursor)
  | count + 1, cursor => do
    let (row, cursor) ← record lib data cursor
    let (rows, cursor) ← recordRows count cursor
    return (row :: rows, cursor)

structure Decoded where
  transactionId : Nat
  response : Bool
  opcode : Nat
  authoritative : Bool
  truncated : Bool
  recursionDesired : Bool
  recursionAvailable : Bool
  authenticatedData : Bool
  checkingDisabled : Bool
  rcode : Nat
  questions : Nat
  answers : Nat
  authorities : Nat
  additionals : Nat
  questionRecords : List QuestionRow
  answerRecords : List RecordRow
  authorityRecords : List RecordRow
  additionalRecords : List RecordRow

/-- Whether a bit of the flags is set. -/
def flag (flags bit : Nat) : Bool := flags / 2 ^ bit % 2 = 1

/-- The six numbers of a header. -/
structure Header where
  transactionId : Nat
  flags : Nat
  questions : Nat
  answers : Nat
  authorities : Nat
  additionals : Nat

/-- What the header and the rows make. -/
def Header.decoded (h : Header) (questions : List QuestionRow) (answers authorities additionals : List RecordRow) :
    Decoded where
  transactionId := h.transactionId
  response := flag h.flags 15
  opcode := h.flags / 2 ^ 11 % 16
  authoritative := flag h.flags 10
  truncated := flag h.flags 9
  recursionDesired := flag h.flags 8
  recursionAvailable := flag h.flags 7
  authenticatedData := flag h.flags 5
  checkingDisabled := flag h.flags 4
  rcode := h.flags % 16
  questions := h.questions
  answers := h.answers
  authorities := h.authorities
  additionals := h.additionals
  questionRecords := questions
  answerRecords := answers
  authorityRecords := authorities
  additionalRecords := additionals

def header : Header :=
  ⟨number data 0 2, number data 2 2, number data 4 2, number data 6 2, number data 8 2, number data 10 2⟩

/-- The budget of records is the sum of the counts, so that each section is read whole. -/
def decode : Except String Decoded := do
  let h := header data
  if data.length < 12 then .error "truncated DNS header"
  if maxQuestions < h.questions then .error "DNS question count exceeds safety bound"
  if maxRecords < h.answers + h.authorities + h.additionals then
    .error "DNS resource record count exceeds safety bound"
  let (questionRecords, cursor) ← questionRows lib data h.questions 12
  let (answerRecords, cursor) ← recordRows lib data h.answers cursor
  let (authorityRecords, cursor) ← recordRows lib data h.authorities cursor
  let (additionalRecords, _) ← recordRows lib data h.additionals cursor
  return h.decoded questionRecords answerRecords authorityRecords additionalRecords

end Messages

end Arenyxa.Capture.Dns

/-! The messages of the DNS, and their encodings with any compression of their names. -/

namespace Arenyxa.Capture.Dns

open Words

/-- The bytes stand at a position. -/
def At (data : Bytes) (position : Nat) (bytes : Bytes) : Prop := bytes <+: data.drop position

/-- The octets of a name. -/
def octets (labels : List Bytes) : Nat := (labels.map fun label => label.length + 1).sum + 1

/-- A name stands at a position, with so many pointers on its way; its local encoding ends at the other position. -/
inductive NameAt (data : Bytes) : Nat → List Bytes → Nat → Nat → Prop
  | root {position : Nat} (root : At data position [0]) : NameAt data position [] 0 (position + 1)
  | label {position pointers resume : Nat} {label : Bytes} {labels : List Bytes} (some : 0 < label.length)
      (short : label.length < 0x40) (here : At data position (UInt8.ofNat label.length :: label))
      (rest : NameAt data (position + 1 + label.length) labels pointers resume) :
      NameAt data position (label :: labels) pointers resume
  | pointer {position target pointers resume : Nat} {labels : List Bytes} (earlier : target < position)
      (low : target < 2 ^ 14) (here : At data position (word 2 (0xc000 + target)))
      (rest : NameAt data target labels pointers resume) : NameAt data position labels (pointers + 1) (position + 2)

/-- A valid name stands there, whose labels and pointers are not more than the depth. -/
def ValidNameAt (depth : Nat) (data : Bytes) (position : Nat) (labels : List Bytes) (resume : Nat) : Prop :=
  ∃ pointers, NameAt data position labels pointers resume ∧ labels.length + pointers ≤ depth ∧ octets labels ≤ 255

structure Question where
  name : List Bytes
  type : Nat
  class' : Nat

/-- The data of a record. -/
inductive Data
  | name (labels : List Bytes)
  | mx (preference : Nat) (exchange : List Bytes)
  | srv (priority weight port : Nat) (target : List Bytes)
  | soa (mname rname : List Bytes) (serial refresh retry expire minimum : Nat)
  | svcb (priority : Nat) (target : List Bytes) (parameters : Bytes)
  | raw (bytes : Bytes)

structure Record where
  owner : List Bytes
  type : Nat
  class' : Nat
  ttl : Nat
  data : Data

structure Message where
  id : Nat
  flags : Nat
  questions : List Question
  answers : List Record
  authorities : List Record
  additionals : List Record

/-- The type says what the data is, whose numbers are within their fields. -/
def Data.Valid (type : Nat) : Data → Prop
  | name _ => type ∈ nameTypes
  | mx preference _ => type = 15 ∧ preference < 2 ^ 16
  | srv priority weight port _ => type = 33 ∧ priority < 2 ^ 16 ∧ weight < 2 ^ 16 ∧ port < 2 ^ 16
  | soa _ _ serial refresh retry expire minimum => type = 6 ∧ serial < 2 ^ 32 ∧ refresh < 2 ^ 32 ∧ retry < 2 ^ 32 ∧
      expire < 2 ^ 32 ∧ minimum < 2 ^ 32
  | svcb priority .. => type ∈ svcbTypes ∧ priority < 2 ^ 16
  | raw _ => type ∉ nameTypes ∧ type ≠ 15 ∧ type ≠ 33 ∧ type ≠ 6 ∧ type ∉ svcbTypes

def Data.At (depth : Nat) (data : Bytes) (start stop : Nat) : Data → Prop
  | name labels => ValidNameAt depth data start labels stop
  | mx preference exchange => Dns.At data start (word 2 preference) ∧ ValidNameAt depth data (start + 2) exchange stop
  | srv priority weight port target =>
    Dns.At data start (word 2 priority ++ word 2 weight ++ word 2 port) ∧
      ValidNameAt depth data (start + 6) target stop
  | soa mname rname serial refresh retry expire minimum =>
    ∃ middle position, ValidNameAt depth data start mname middle ∧ ValidNameAt depth data middle rname position ∧
      Dns.At data position (word 4 serial ++ word 4 refresh ++ word 4 retry ++ word 4 expire ++ word 4 minimum) ∧
      stop = position + 20
  | svcb priority target parameters =>
    ∃ position, Dns.At data start (word 2 priority) ∧ ValidNameAt depth data (start + 2) target position ∧
      Dns.At data position parameters ∧ stop = position + parameters.length
  | raw bytes => Dns.At data start bytes ∧ stop = start + bytes.length

def Question.At (depth : Nat) (data : Bytes) (q : Question) (position next : Nat) : Prop :=
  ∃ resume, ValidNameAt depth data position q.name resume ∧ Dns.At data resume (word 2 q.type ++ word 2 q.class') ∧
    next = resume + 4

def Record.At (depth : Nat) (data : Bytes) (r : Record) (position next : Nat) : Prop :=
  ∃ resume rdlength, ValidNameAt depth data position r.owner resume ∧
    Dns.At data resume (word 2 r.type ++ word 2 r.class' ++ word 4 r.ttl ++ word 2 rdlength) ∧ rdlength < 2 ^ 16 ∧
    r.data.At depth data (resume + 10) (resume + 10 + rdlength) ∧ next = resume + 10 + rdlength

/-- Items stand one after another. -/
inductive Sequence {ι : Type} (Item : ι → Nat → Nat → Prop) : List ι → Nat → Nat → Prop
  | nil {position : Nat} : Sequence Item [] position position
  | cons {position middle next : Nat} {item : ι} {items : List ι} (first : Item item position middle)
      (rest : Sequence Item items middle next) : Sequence Item (item :: items) position next

def Message.header (m : Message) : Header :=
  ⟨m.id, m.flags, m.questions.length, m.answers.length, m.authorities.length, m.additionals.length⟩

def Header.bytes (h : Header) : Bytes :=
  word 2 h.transactionId ++ word 2 h.flags ++ word 2 h.questions ++ word 2 h.answers ++ word 2 h.authorities ++
    word 2 h.additionals

/-- The data is an encoding of the message, in which each name has labels and pointers up to the depth. -/
structure Encodes (depth : Nat) (data : Bytes) (m : Message) : Prop where
  header : At data 0 m.header.bytes
  sections : ∃ questions answers authorities additionals,
    Sequence (Question.At depth data) m.questions 12 questions ∧
    Sequence (Record.At depth data) m.answers questions answers ∧
    Sequence (Record.At depth data) m.authorities answers authorities ∧
    Sequence (Record.At depth data) m.additionals authorities additionals

structure Question.Valid (q : Question) : Prop where
  type : q.type < 2 ^ 16
  class' : q.class' < 2 ^ 16

structure Record.Valid (r : Record) : Prop where
  type : r.type < 2 ^ 16
  class' : r.class' < 2 ^ 16
  ttl : r.ttl < 2 ^ 32
  data : r.data.Valid r.type

structure Message.Valid (m : Message) : Prop where
  id : m.id < 2 ^ 16
  flags : m.flags < 2 ^ 16
  questionCount : m.questions.length ≤ maxQuestions
  recordCount : m.answers.length + m.authorities.length + m.additionals.length ≤ maxRecords
  questions : ∀ q ∈ m.questions, q.Valid
  records : ∀ r ∈ m.answers ++ m.authorities ++ m.additionals, r.Valid

section Meaning

variable (lib : Library)

def textOf (labels : List Bytes) : String := nameText (labels.map lib.label)

/-- The fields of a record's data. -/
def Data.fields (type class' ttl : Nat) : Data → Except String Rdata
  | name labels => .ok (.target (textOf lib labels))
  | mx preference exchange => .ok (.mx preference (textOf lib exchange))
  | srv priority weight port target => .ok (.srv priority weight port (textOf lib target))
  | soa mname rname serial refresh retry expire minimum =>
    .ok (.soa (textOf lib mname) (textOf lib rname) serial refresh retry expire minimum)
  | svcb priority target parameters =>
    (svcbParams lib maxParameters parameters).map (.svcb priority (textOf lib target) parameters.length)
  | raw bytes => .ok (rawFields lib type class' ttl bytes)

def Question.row (q : Question) : QuestionRow :=
  ⟨textOf lib q.name, q.type, typeName q.type, q.class', className q.class'⟩

/-- The row of a record, without a length. -/
def Record.row (r : Record) : Except String RecordRow :=
  (r.data.fields lib r.type r.class' r.ttl).map fun fields =>
    ⟨textOf lib r.owner, r.type, typeName r.type, r.class', className r.class', r.ttl, 0, fields⟩

/-- What a message means, without the lengths of its records' data. -/
def Message.meaning (m : Message) : Except String Decoded := do
  let answers ← m.answers.mapM (Record.row lib)
  let authorities ← m.authorities.mapM (Record.row lib)
  let additionals ← m.additionals.mapM (Record.row lib)
  return m.header.decoded (m.questions.map (Question.row lib)) answers authorities additionals

end Meaning

def RecordRow.plain (row : RecordRow) : RecordRow := { row with rdlength := 0 }

/-- The result without the lengths of the records' data. -/
def Decoded.plain (d : Decoded) : Decoded :=
  { d with
    answerRecords := d.answerRecords.map RecordRow.plain
    authorityRecords := d.authorityRecords.map RecordRow.plain
    additionalRecords := d.additionalRecords.map RecordRow.plain }

end Arenyxa.Capture.Dns
