import Arenyxa.Capture.DnsMessage
import Mathlib.Algebra.Order.BigOperators.Group.List
import Mathlib.Tactic.NormNum

/-! The decoding of a DNS message does not depend on the compression of its names. -/

namespace Arenyxa.Capture.Dns

open Words

variable {lib : Library} {data bytes more : Bytes} {position resume pointers n width depth start stop : Nat}
  {labels : List Bytes}

section Bytes

theorem at_append : At data position (bytes ++ more) ↔
    At data position bytes ∧ At data (position + bytes.length) more := by
  rw [At, At, At]
  constructor
  · rintro ⟨rest, split⟩
    refine ⟨⟨more ++ rest, by rw [← split, List.append_assoc]⟩, rest, ?_⟩
    rw [← List.drop_drop, ← split, List.append_assoc, List.drop_left]
  · rintro ⟨⟨rest, split⟩, later⟩
    rw [← List.drop_drop, ← split, List.drop_left] at later
    obtain ⟨rest', rfl⟩ := later
    exact ⟨rest', by rw [← split, List.append_assoc]⟩

theorem At.inside (h : At data position bytes) (some : bytes ≠ []) : position + bytes.length ≤ data.length := by
  have fits := h.length_le
  rw [List.length_drop] at fits
  have := List.length_pos_of_ne_nil some
  omega

theorem At.take (h : At data position bytes) : (data.drop position).take bytes.length = bytes := by
  obtain ⟨rest, split⟩ := h
  rw [← split, List.take_left]

theorem At.slice (h : At data position bytes) : slice data position (position + bytes.length) = bytes := by
  rw [Dns.slice, List.drop_take, Nat.add_sub_cancel_left, h.take]

theorem At.number (h : At data position (word width n)) (fits : n < 256 ^ width) :
    number data position width = n := by
  have own := h.take
  rw [length_word] at own
  rw [Dns.number, own, value_word fits]

theorem At.byte {byte : UInt8} (h : At data position (byte :: bytes)) : data[position]? = some byte := by
  obtain ⟨rest, split⟩ := h
  rw [← List.head?_drop, ← split]
  rfl

end Bytes

section Names

theorem NameAt.bounds (h : NameAt data position labels pointers resume) :
    position < resume ∧ resume ≤ data.length := by
  induction h with
  | root root => exact ⟨Nat.lt_succ_self _, root.inside (List.cons_ne_nil _ _)⟩
  | label some short here rest ih => exact ⟨by omega, ih.2⟩
  | pointer earlier low here rest ih =>
    refine ⟨by omega, ?_⟩
    have := here.inside (List.cons_ne_nil _ _)
    rwa [length_word] at this

theorem At.labelByte {label : Bytes} (h : At data position (UInt8.ofNat label.length :: label))
    (short : label.length < 0x40) :
    ∃ byte, data[position]? = some byte ∧ byte.toNat = label.length ∧
      Dns.slice data (position + 1) (position + 1 + label.length) = label ∧
      position + 1 + label.length ≤ data.length := by
  refine ⟨_, h.byte, by rw [UInt8.toNat_ofNat']; omega, ?_, ?_⟩
  · have parts : At data position ([UInt8.ofNat label.length] ++ label) := h
    exact (at_append.1 parts).2.slice
  · have := h.inside (List.cons_ne_nil _ _)
    rw [List.length_cons] at this
    omega

theorem At.pointerBytes {target : Nat} (h : At data position (word 2 (0xc000 + target))) (low : target < 2 ^ 14) :
    ∃ high byte, data[position]? = some high ∧ data[position + 1]? = some byte ∧
      high.toNat = 0xc0 + target / 256 ∧ byte.toNat = target % 256 := by
  have both : At data position ([UInt8.ofNat ((0xc000 + target) / 256)] ++ [UInt8.ofNat (0xc000 + target)]) := h
  refine ⟨_, _, (at_append.1 both).1.byte, (at_append.1 both).2.byte, ?_, ?_⟩ <;> rw [UInt8.toNat_ofNat'] <;> omega

theorem NameAt.size_unique {labels' : List Bytes} {pointers' resume' : Nat}
    (h : NameAt data position labels pointers resume) (h' : NameAt data position labels' pointers' resume') :
    labels.length + pointers = labels'.length + pointers' := by
  induction h generalizing labels' pointers' resume' with
  | @root position root =>
    have zero : data[position]? = some 0 := root.byte
    cases h' with
    | root => rfl
    | label some short here =>
      obtain ⟨byte, at_byte, its, -⟩ := here.labelByte short
      cases zero.symm.trans at_byte
      exact absurd its some.ne
    | pointer earlier low here =>
      obtain ⟨high, byte, at_high, -, its, -⟩ := here.pointerBytes low
      cases zero.symm.trans at_high
      exact absurd its (by rw [UInt8.toNat_zero]; omega)
  | @label position pointers resume label labels some short here rest ih =>
    obtain ⟨byte, at_byte, its, -⟩ := here.labelByte short
    cases h' with
    | root root =>
      cases at_byte.symm.trans root.byte
      exact absurd its some.ne
    | label some' short' here' rest' =>
      obtain ⟨byte', at_byte', its', -⟩ := here'.labelByte short'
      cases at_byte.symm.trans at_byte'
      rw [← its', its] at rest'
      have := ih rest'
      rw [List.length_cons, List.length_cons]
      omega
    | pointer earlier low here' =>
      obtain ⟨high, low_byte, at_high, -, its', -⟩ := here'.pointerBytes low
      cases at_byte.symm.trans at_high
      omega
  | @pointer position target pointers resume labels earlier low here rest ih =>
    obtain ⟨high, byte, at_high, at_byte, its, its_low⟩ := here.pointerBytes low
    cases h' with
    | root root =>
      cases at_high.symm.trans root.byte
      exact absurd its (by rw [UInt8.toNat_zero]; omega)
    | label some' short' here' =>
      obtain ⟨byte', at_byte', its', -⟩ := here'.labelByte short'
      cases at_high.symm.trans at_byte'
      omega
    | @pointer _ target' pointers' _ _ earlier' low' here' rest' =>
      obtain ⟨high', byte', at_high', at_byte', its', its_low'⟩ := here'.pointerBytes low'
      cases at_high.symm.trans at_high'
      cases at_byte.symm.trans at_byte'
      obtain rfl : target = target' := by omega
      have := ih rest'
      omega

theorem nameLoop_at (h : NameAt data position labels pointers resume) :
    ∀ (depth resume' : Nat) (jumped : Bool) (seen : List Nat) (texts : List String),
      labels.length + pointers < depth →
      (∀ target ∈ seen, ∃ labels' pointers' resume', NameAt data target labels' pointers' resume' ∧
        labels.length + pointers ≤ labels'.length + pointers') →
      ((texts ++ labels.map lib.label).map fun text => text.length + 1).sum ≤ maxNameChars →
      nameLoop lib data depth position resume' jumped seen texts =
        .ok (nameText (texts ++ labels.map lib.label), if jumped then resume' else resume) := by
  induction h with
  | @root position root =>
    intro depth resume' jumped seen texts deep _ _
    obtain ⟨depth, rfl⟩ := Nat.exists_eq_succ_of_ne_zero (Nat.ne_of_gt (Nat.zero_lt_of_lt deep))
    have zero : data[position]? = some 0 := root.byte
    rw [nameLoop, zero]
    simp
  | @label position pointers resume label labels some short here rest ih =>
    intro depth resume' jumped seen texts deep followed budget
    obtain ⟨depth, rfl⟩ := Nat.exists_eq_succ_of_ne_zero (Nat.ne_of_gt (Nat.zero_lt_of_lt deep))
    obtain ⟨byte, at_byte, its, own, inside⟩ := here.labelByte short
    rw [List.length_cons] at deep followed
    have shape : texts ++ (label :: labels).map lib.label = (texts ++ [lib.label label]) ++ labels.map lib.label := by
      rw [List.map_cons, List.append_assoc]
      rfl
    rw [shape] at budget ⊢
    have within : ((texts ++ [lib.label label]).map fun text => text.length + 1).sum ≤ maxNameChars := by
      rw [List.map_append, List.sum_append] at budget
      omega
    rw [nameLoop, at_byte]
    simp only [its, own]
    rw [if_neg some.ne', if_neg (by omega), if_neg (by omega), if_neg (by omega), if_neg (not_lt.mpr within),
      ih depth _ jumped seen _ (by omega) (fun target mem => ?_) budget]
    · cases jumped <;> rfl
    · obtain ⟨labels', pointers', resume'', there, more⟩ := followed target mem
      exact ⟨labels', pointers', resume'', there, by omega⟩
  | @pointer position target pointers resume labels earlier low here rest ih =>
    intro depth resume' jumped seen texts deep followed budget
    obtain ⟨depth, rfl⟩ := Nat.exists_eq_succ_of_ne_zero (Nat.ne_of_gt (Nat.zero_lt_of_lt deep))
    obtain ⟨high, byte, at_high, at_byte, its, its_low⟩ := here.pointerBytes low
    have goal : (0xc0 + target / 256) % 0x40 * 256 + target % 256 = target := by omega
    have inside : target < data.length := rest.bounds.1.trans_le rest.bounds.2
    have unseen : target ∉ seen := by
      intro mem
      obtain ⟨labels', pointers', resume'', there, more⟩ := followed target mem
      have := rest.size_unique there
      omega
    rw [nameLoop, at_high]
    simp only [its, at_byte, its_low, goal]
    rw [if_neg (by omega), if_pos (by omega), if_neg (not_or.mpr ⟨not_le.mpr inside, unseen⟩),
      ih depth _ true _ texts (by omega) (fun target' mem => ?_) budget]
    · cases jumped <;> rfl
    · rcases List.mem_cons.mp mem with rfl | before
      · exact ⟨labels, pointers, resume, rest, le_rfl⟩
      · obtain ⟨labels', pointers', resume'', there, more⟩ := followed target' before
        exact ⟨labels', pointers', resume'', there, by omega⟩

theorem nameLoop_deep (h : NameAt data position labels pointers resume) :
    ∀ (depth resume' : Nat) (jumped : Bool) (seen : List Nat) (texts : List String),
      depth ≤ labels.length + pointers →
      ∃ e, nameLoop lib data depth position resume' jumped seen texts = .error e := by
  induction h with
  | root root =>
    intro depth resume' jumped seen texts deep
    obtain rfl := Nat.le_zero.mp deep
    exact ⟨_, rfl⟩
  | label some short here rest ih =>
    intro depth resume' jumped seen texts deep
    rw [List.length_cons] at deep
    cases depth with
    | zero => exact ⟨_, rfl⟩
    | succ depth =>
      obtain ⟨byte, at_byte, its, own, inside⟩ := here.labelByte short
      rw [nameLoop, at_byte]
      simp only [its, own]
      rw [if_neg some.ne', if_neg (by omega), if_neg (by omega), if_neg (by omega)]
      split_ifs
      · exact ⟨_, rfl⟩
      all_goals exact ih depth _ jumped seen _ (by omega)
  | @pointer position target pointers resume labels earlier low here rest ih =>
    intro depth resume' jumped seen texts deep
    cases depth with
    | zero => exact ⟨_, rfl⟩
    | succ depth =>
      obtain ⟨high, byte, at_high, at_byte, its, its_low⟩ := here.pointerBytes low
      have goal : (0xc0 + target / 256) % 0x40 * 256 + target % 256 = target := by omega
      rw [nameLoop, at_high]
      simp only [its, at_byte, its_low, goal]
      rw [if_neg (by omega), if_pos (by omega)]
      split_ifs
      · exact ⟨_, rfl⟩
      all_goals exact ih depth _ true _ texts (by omega)

theorem text_budget (lib : Library) (valid : octets labels ≤ 255) :
    ((labels.map lib.label).map fun text => text.length + 1).sum ≤ maxNameChars := by
  have each : ((labels.map lib.label).map fun text => text.length + 1).sum ≤
      (labels.map fun label => label.length + 1).sum := by
    rw [List.map_map]
    exact List.sum_le_sum fun label _ => Nat.succ_le_succ (lib.label_length label)
  rw [octets] at valid
  rw [maxNameChars]
  omega

theorem name_at (h : ValidNameAt 127 data position labels resume) :
    name lib data position = .ok (textOf lib labels, resume) := by
  obtain ⟨pointers, there, shallow, valid⟩ := h
  exact nameLoop_at there maxNameDepth position false [] [] (by rw [maxNameDepth]; omega)
    (fun _ mem => absurd mem List.not_mem_nil) (text_budget lib valid)

theorem name_deep (h : NameAt data position labels pointers resume) (deep : maxNameDepth ≤ labels.length + pointers) :
    ∃ e, name lib data position = .error e :=
  nameLoop_deep h _ _ _ _ _ deep

theorem rdataName_at (h : ValidNameAt 127 data position labels resume) (inside : resume ≤ stop) :
    rdataName lib data position stop = .ok (textOf lib labels, resume) := by
  rw [rdataName, name_at h]
  exact if_neg (not_lt.mpr inside)

end Names

section Records

theorem ValidNameAt.bounds (h : ValidNameAt depth data position labels resume) :
    position < resume ∧ resume ≤ data.length := by
  obtain ⟨pointers, there, -⟩ := h
  exact there.bounds

theorem length_slice (inside : stop ≤ data.length) : (slice data start stop).length = stop - start := by
  rw [slice, List.length_drop, List.length_take, min_eq_left inside]

theorem At.numbers {w w' n n' : Nat} (h : At data position (word w n ++ word w' n')) (fits : n < 256 ^ w)
    (fits' : n' < 256 ^ w') : Dns.number data position w = n ∧ Dns.number data (position + w) w' = n' := by
  have both := at_append.1 h
  rw [length_word] at both
  exact ⟨both.1.number fits, both.2.number fits'⟩

theorem At.behind {w n : Nat} {bytes : Bytes} (h : At data position (bytes ++ word w n)) (fits : n < 256 ^ w) :
    At data position bytes ∧ Dns.number data (position + bytes.length) w = n :=
  ⟨(at_append.1 h).1, (at_append.1 h).2.number fits⟩

theorem ok_bind {α β : Type} (a : α) (f : α → Except String β) : (Except.ok a >>= f) = f a := rfl

theorem rdata_at {d : Data} {type class' ttl : Nat} (valid : d.Valid type) (h : d.At 127 data start stop)
    (inside : stop ≤ data.length) : rdata lib data type class' ttl start stop = d.fields lib type class' ttl := by
  have length := @length_slice data start stop inside
  rw [rdata]
  cases d with
  | name labels =>
    have named : type ∈ nameTypes := valid
    rw [if_pos named, rdataName_at h le_rfl]
    rfl
  | mx preference exchange =>
    obtain ⟨rfl, preference_lt⟩ := valid
    obtain ⟨number, there⟩ := h
    have := there.bounds.1
    rw [if_neg (by decide), if_pos ⟨rfl, by omega⟩, rdataName_at there le_rfl, number.number (by omega)]
    rfl
  | srv priority weight port target =>
    obtain ⟨rfl, priority_lt, weight_lt, port_lt⟩ := valid
    obtain ⟨numbers, there⟩ := h
    have := there.bounds.1
    obtain ⟨first, port_at⟩ := numbers.behind (by omega)
    obtain ⟨priority_at, weight_at⟩ := first.numbers (by omega) (by omega)
    simp only [List.length_append, length_word] at port_at
    rw [if_neg (by decide), if_neg (by omega), if_pos ⟨rfl, by omega⟩, rdataName_at there le_rfl, priority_at,
      weight_at, port_at]
    rfl
  | soa mname rname serial refresh retry expire minimum =>
    obtain ⟨rfl, serial_lt, refresh_lt, retry_lt, expire_lt, minimum_lt⟩ := valid
    obtain ⟨middle, position, first, second, numbers, ends⟩ := h
    have := first.bounds.1
    have := second.bounds.1
    obtain ⟨numbers, minimum_at⟩ := numbers.behind (by omega)
    obtain ⟨numbers, expire_at⟩ := numbers.behind (by omega)
    obtain ⟨numbers, retry_at⟩ := numbers.behind (by omega)
    obtain ⟨serial_at, refresh_at⟩ := numbers.numbers (by omega) (by omega)
    simp only [List.length_append, length_word] at retry_at expire_at minimum_at
    rw [if_neg (by decide), if_neg (by omega), if_neg (by omega), if_pos ⟨rfl, by omega⟩,
      rdataName_at first (by omega), ok_bind]
    dsimp only
    rw [rdataName_at second (by omega), ok_bind]
    dsimp only
    rw [if_pos ends.ge, serial_at, refresh_at, retry_at, expire_at, minimum_at]
    rfl
  | svcb priority target parameters =>
    obtain ⟨its, priority_lt⟩ := valid
    obtain ⟨position, number, there, tail, ends⟩ := h
    have := there.bounds.1
    have outside : type ∉ nameTypes ∧ type ≠ 15 ∧ type ≠ 33 ∧ type ≠ 6 := by
      rcases List.mem_pair.mp its with rfl | rfl <;> decide
    rw [if_neg outside.1, if_neg fun h => outside.2.1 h.1, if_neg fun h => outside.2.2.1 h.1,
      if_neg fun h => outside.2.2.2 h.1, if_pos ⟨its, by omega⟩, rdataName_at there (by omega), ok_bind]
    dsimp only
    rw [number.number (by omega), ends, tail.slice, Nat.add_sub_cancel_left, Data.fields]
    cases svcbParams lib maxParameters parameters <;> rfl
  | raw bytes =>
    obtain ⟨named, mx, srv, soa, svcb⟩ := valid
    obtain ⟨there, rfl⟩ := h
    rw [if_neg named, if_neg fun h => mx h.1, if_neg fun h => srv h.1, if_neg fun h => soa h.1,
      if_neg fun h => svcb h.1, there.slice]
    rfl

/-- The reading fails as the meaning does, or gives what it means and goes on at the position. -/
def Agrees {α β : Type} (plain : α → β) (next : Nat) (read : Except String (α × Nat)) (meant : Except String β) :
    Prop :=
  (∃ e, read = .error e ∧ meant = .error e) ∨ ∃ a, read = .ok (a, next) ∧ meant = .ok (plain a)

variable {next : Nat}

theorem question_at {q : Question} (valid : q.Valid) (h : q.At 127 data position next) :
    question lib data position = .ok (q.row lib, next) := by
  obtain ⟨resume, named, numbers, rfl⟩ := h
  have inside := numbers.inside (List.append_ne_nil_of_left_ne_nil (by rw [word]; simp) _)
  rw [List.length_append, length_word, length_word] at inside
  obtain ⟨type_at, class_at⟩ := numbers.numbers (by have := valid.type; omega) (by have := valid.class'; omega)
  rw [question, name_at named, ok_bind]
  dsimp only
  rw [if_neg (by omega), type_at, class_at]
  rfl

theorem questionRows_at {questions : List Question} (valid : ∀ q ∈ questions, q.Valid)
    (h : Sequence (Question.At 127 data) questions position next) :
    questionRows lib data questions.length position = .ok (questions.map (Question.row lib), next) := by
  induction h with
  | nil => rfl
  | cons first rest ih =>
    rw [List.length_cons, questionRows, question_at (valid _ List.mem_cons_self) first, ok_bind]
    dsimp only
    rw [ih fun q mem => valid q (List.mem_cons_of_mem _ mem), ok_bind]
    rfl

theorem Data.At.inside {d : Data} (h : d.At depth data start stop) (before : start ≤ data.length) :
    stop ≤ data.length := by
  cases d with
  | name => exact ValidNameAt.bounds h |>.2
  | mx => exact h.2.bounds.2
  | srv => exact h.2.bounds.2
  | soa mname rname serial refresh retry expire minimum =>
    obtain ⟨middle, position, first, second, numbers, rfl⟩ := h
    have := (at_append.1 numbers).2.inside (by rw [word]; simp)
    simp only [List.length_append, length_word] at this
    omega
  | svcb priority target parameters =>
    obtain ⟨position, -, there, tail, rfl⟩ := h
    have := tail.length_le
    rw [List.length_drop] at this
    have := there.bounds.2
    omega
  | raw bytes =>
    obtain ⟨there, rfl⟩ := h
    have := there.length_le
    rw [List.length_drop] at this
    omega

theorem record_at {r : Record} (valid : r.Valid) (h : r.At 127 data position next) :
    Agrees RecordRow.plain next (record lib data position) (r.row lib) := by
  obtain ⟨resume, rdlength, named, numbers, length_lt, there, rfl⟩ := h
  have inside := numbers.inside (List.append_ne_nil_of_right_ne_nil _ (by rw [word]; simp))
  simp only [List.length_append, length_word] at inside
  have stop_le := there.inside inside
  have type_lt := valid.type
  have class_lt := valid.class'
  have ttl_lt := valid.ttl
  obtain ⟨numbers, length_at⟩ := numbers.behind (by omega)
  obtain ⟨numbers, ttl_at⟩ := numbers.behind (by omega)
  obtain ⟨type_at, class_at⟩ := numbers.numbers (by omega) (by omega)
  simp only [List.length_append, length_word] at ttl_at length_at
  rw [record, name_at named, ok_bind]
  dsimp only
  rw [if_neg (by omega), type_at, class_at, ttl_at, length_at]
  show Agrees _ _ (do
    if data.length < resume + 10 + rdlength then .error "truncated DNS rdata"
    let fields ← rdata lib data r.type r.class' r.ttl (resume + 10) (resume + 10 + rdlength)
    _) _
  rw [if_neg (not_lt.mpr stop_le), rdata_at valid.data there stop_le, Record.row]
  cases r.data.fields lib r.type r.class' r.ttl with
  | error e => exact .inl ⟨e, rfl, rfl⟩
  | ok fields => exact .inr ⟨_, rfl, rfl⟩

theorem recordRows_at {records : List Record} (valid : ∀ r ∈ records, r.Valid)
    (h : Sequence (Record.At 127 data) records position next) :
    Agrees (List.map RecordRow.plain) next (recordRows lib data records.length position)
      (records.mapM (Record.row lib)) := by
  induction h with
  | nil => exact .inr ⟨[], rfl, rfl⟩
  | @cons position middle next r records first rest ih =>
    rw [List.length_cons, recordRows, List.mapM_cons]
    rcases record_at (valid _ List.mem_cons_self) first with ⟨e, failed, meant⟩ | ⟨row, read, meant⟩
    · rw [failed, meant]
      exact .inl ⟨e, rfl, rfl⟩
    · rw [read, meant, ok_bind, ok_bind]
      rcases ih fun r mem => valid r (List.mem_cons_of_mem _ mem) with ⟨e, failed, meant⟩ | ⟨rows, read, meant⟩
      · dsimp only
        rw [failed, meant]
        exact .inl ⟨e, rfl, rfl⟩
      · dsimp only
        rw [read, meant]
        exact .inr ⟨_, rfl, rfl⟩

end Records

section Messages

variable {m : Message}

theorem header_at (valid : m.Valid) (h : At data 0 m.header.bytes) : 12 ≤ data.length ∧ header data = m.header := by
  have inside := h.inside (List.append_ne_nil_of_right_ne_nil _ (by rw [word]; simp))
  simp only [Header.bytes, List.length_append, length_word] at inside
  have questions := valid.questionCount
  have records := valid.recordCount
  rw [maxQuestions] at questions
  rw [maxRecords] at records
  obtain ⟨h, additionals_at⟩ := At.behind h (show m.additionals.length < 256 ^ 2 by omega)
  obtain ⟨h, authorities_at⟩ := h.behind (show m.authorities.length < 256 ^ 2 by omega)
  obtain ⟨h, answers_at⟩ := h.behind (show m.answers.length < 256 ^ 2 by omega)
  obtain ⟨h, questions_at⟩ := h.behind (show m.questions.length < 256 ^ 2 by omega)
  obtain ⟨id_at, flags_at⟩ := h.numbers (by have := valid.id; exact this) (by have := valid.flags; exact this)
  simp only [List.length_append, length_word] at additionals_at authorities_at answers_at questions_at
  refine ⟨inside, ?_⟩
  rw [header, Message.header, Header.mk.injEq]
  exact ⟨id_at, flags_at, questions_at, answers_at, authorities_at, additionals_at⟩

theorem plain_decoded (h : Header) (questions : List QuestionRow) (answers authorities additionals : List RecordRow) :
    (h.decoded questions answers authorities additionals).plain =
      h.decoded questions (answers.map RecordRow.plain) (authorities.map RecordRow.plain)
        (additionals.map RecordRow.plain) := rfl

theorem decode_at (valid : m.Valid) (h : Encodes 127 data m) :
    (decode lib data).map Decoded.plain = m.meaning lib := by
  obtain ⟨whole, same⟩ := @header_at data m valid h.header
  obtain ⟨questions, answers, authorities, additionals, questions_at, answers_at, authorities_at, additionals_at⟩ :=
    h.sections
  have answers_valid : ∀ r ∈ m.answers, r.Valid := fun r mem => valid.records r (by simp [mem])
  have authorities_valid : ∀ r ∈ m.authorities, r.Valid := fun r mem => valid.records r (by simp [mem])
  have additionals_valid : ∀ r ∈ m.additionals, r.Valid := fun r mem => valid.records r (by simp [mem])
  have question_count : ¬ maxQuestions < m.header.questions := not_lt.mpr valid.questionCount
  have record_count : ¬ maxRecords < m.header.answers + m.header.authorities + m.header.additionals :=
    not_lt.mpr valid.recordCount
  have questions_read : questionRows lib data m.header.questions 12 = _ :=
    questionRows_at valid.questions questions_at
  have answers_read : Agrees _ answers (recordRows lib data m.header.answers questions) _ :=
    recordRows_at answers_valid answers_at
  have authorities_read : Agrees _ authorities (recordRows lib data m.header.authorities answers) _ :=
    recordRows_at authorities_valid authorities_at
  have additionals_read : Agrees _ additionals (recordRows lib data m.header.additionals authorities) _ :=
    recordRows_at additionals_valid additionals_at
  rw [decode, same, Message.meaning]
  dsimp only
  rw [if_neg (not_lt.mpr whole), if_neg question_count, if_neg record_count, questions_read, ok_bind]
  dsimp only
  -- The sections are read one after another; the first record that fails ends both sides.
  rcases answers_read with ⟨e, failed, meant⟩ | ⟨first, read, meant⟩
  · rw [failed, meant]
    rfl
  rw [read, meant, ok_bind, ok_bind]
  dsimp only
  rcases authorities_read with ⟨e, failed, meant⟩ | ⟨second, read, meant⟩
  · rw [failed, meant]
    rfl
  rw [read, meant, ok_bind, ok_bind]
  dsimp only
  rcases additionals_read with ⟨e, failed, meant⟩ | ⟨third, read, meant⟩
  · rw [failed, meant]
    rfl
  rw [read, meant, ok_bind, ok_bind]
  exact congrArg Except.ok (plain_decoded _ _ _ _ _)

end Messages

section Samples

def sampleLibrary : Library where
  label bytes := if bytes = [0x61] then "a" else ""
  ascii _ := ""
  utf8 _ := ""
  hex _ := ""
  ipv4 _ := ""
  ipv6 _ := ""
  sha256 _ := ""
  label_length bytes := by
    split
    next letter => rw [letter]; decide
    next => exact Nat.zero_le _

/-- The name of so many labels of one letter. -/
def longName (labels : Nat) : List Bytes := List.replicate labels [0x61]

/-- Two questions about one name. -/
def sampleMessage (labels : Nat) : Message where
  id := 0
  flags := 0
  questions := [⟨longName labels, 1, 1⟩, ⟨longName labels, 1, 1⟩]
  answers := []
  authorities := []
  additionals := []

def longNameBytes (labels : Nat) : Bytes := (List.replicate labels [1, 0x61]).flatten ++ [0]

/-- The second name is a pointer to the first one. -/
def pointed (labels : Nat) : Bytes :=
  (sampleMessage labels).header.bytes ++ longNameBytes labels ++ [0, 1, 0, 1] ++ [0xc0, 12] ++ [0, 1, 0, 1]

/-- Both names are written out. -/
def writtenOut (labels : Nat) : Bytes :=
  (sampleMessage labels).header.bytes ++ longNameBytes labels ++ [0, 1, 0, 1] ++ longNameBytes labels ++ [0, 1, 0, 1]

theorem longName_at {labels position : Nat} (h : At data position (longNameBytes labels)) :
    NameAt data position (longName labels) 0 (position + (2 * labels + 1)) := by
  induction labels generalizing position with
  | zero => exact .root h
  | succ labels ih =>
    have split : longNameBytes (labels + 1) = [1, 0x61] ++ longNameBytes labels := by
      rw [longNameBytes, List.replicate_succ, List.flatten_cons, List.append_assoc]
      rfl
    rw [split, at_append] at h
    have rest := ih h.2
    rw [show position + (2 * (labels + 1) + 1) = position + 1 + 1 + (2 * labels + 1) by omega]
    exact NameAt.label Nat.one_pos (by decide) h.1 rest

theorem octets_longName (labels : Nat) : octets (longName labels) = 2 * labels + 1 := by
  induction labels with
  | zero => rfl
  | succ labels ih =>
    rw [octets, longName] at ih ⊢
    rw [List.replicate_succ, List.map_cons, List.sum_cons, List.length_singleton]
    omega

theorem length_longNameBytes (labels : Nat) : (longNameBytes labels).length = 2 * labels + 1 := by
  induction labels with
  | zero => rfl
  | succ labels ih =>
    rw [longNameBytes] at ih ⊢
    rw [List.replicate_succ, List.flatten_cons, List.append_assoc, List.length_append, ih]
    change 2 + (2 * labels + 1) = _
    omega

theorem sample_valid : (sampleMessage 127).Valid where
  id := by decide
  flags := by decide
  questionCount := by decide
  recordCount := by decide
  questions q mem := by
    rcases List.mem_pair.mp mem with rfl | rfl <;> exact ⟨by decide, by decide⟩
  records r mem := absurd mem List.not_mem_nil

theorem valid_longName {labels position : Nat} (h : At data position (longNameBytes labels)) (short : labels ≤ 127) :
    ValidNameAt 127 data position (longName labels) (position + (2 * labels + 1)) :=
  ⟨0, longName_at h, by rw [longName, List.length_replicate]; omega, by rw [octets_longName]; omega⟩

theorem ValidNameAt.mono {depth' : Nat} (h : ValidNameAt depth data position labels resume) (le : depth ≤ depth') :
    ValidNameAt depth' data position labels resume := by
  obtain ⟨pointers, there, shallow, valid⟩ := h
  exact ⟨pointers, there, shallow.trans le, valid⟩

theorem sample_parts {second : Bytes} {labels : Nat}
    (h : data = (sampleMessage labels).header.bytes ++ longNameBytes labels ++ [0, 1, 0, 1] ++ second ++
      [0, 1, 0, 1]) :
    At data 0 (sampleMessage labels).header.bytes ∧ At data 12 (longNameBytes labels) ∧
      At data (2 * labels + 13) [0, 1, 0, 1] ∧ At data (2 * labels + 17) second ∧
      At data (2 * labels + 17 + second.length) [0, 1, 0, 1] := by
  have whole : At data 0 data := List.prefix_rfl
  have header : (sampleMessage labels).header.bytes.length = 12 := by
    simp only [Header.bytes, List.length_append, length_word]
  generalize (sampleMessage labels).header.bytes = head at h header ⊢
  nth_rewrite 2 [h] at whole
  obtain ⟨⟨⟨⟨head_at, first⟩, type⟩, second_at⟩, type'⟩ := by
    simpa only [at_append, List.length_append, header, length_longNameBytes] using whole
  refine ⟨head_at, first, ?_, ?_, ?_⟩
  · rwa [show 2 * labels + 13 = 0 + (12 + (2 * labels + 1)) by omega]
  · rwa [show 2 * labels + 17 = 0 + (12 + (2 * labels + 1) + 4) by omega]
  · rwa [show 2 * labels + 17 + second.length = 0 + (12 + (2 * labels + 1) + 4 + second.length) by omega]

theorem encodes_writtenOut : Encodes 127 (writtenOut 127) (sampleMessage 127) := by
  have parts := sample_parts (rfl : writtenOut 127 = _)
  rw [length_longNameBytes] at parts
  generalize writtenOut 127 = data at parts ⊢
  obtain ⟨head, first, type, second, type'⟩ := parts
  have first := valid_longName first le_rfl
  have second := valid_longName second le_rfl
  exact ⟨head, _, _, _, _, .cons ⟨_, first, type, rfl⟩ (.cons ⟨_, second, type', rfl⟩ .nil), .nil, .nil, .nil⟩

theorem encodes_pointed : Encodes 128 (pointed 127) (sampleMessage 127) := by
  have parts := sample_parts (rfl : pointed 127 = _)
  generalize pointed 127 = data at parts ⊢
  obtain ⟨head, first, type, second, type'⟩ := parts
  have written := longName_at first
  have pointer := NameAt.pointer (by decide) (by decide) second written
  have count : (longName 127).length + 1 ≤ 128 := by rw [longName, List.length_replicate]
  have short : octets (longName 127) ≤ 255 := (octets_longName 127).le
  have first := (valid_longName first le_rfl).mono (by decide : 127 ≤ 128)
  exact ⟨head, _, _, _, _, .cons ⟨_, first, type, rfl⟩
    (.cons ⟨_, ⟨1, pointer, count, short⟩, type', rfl⟩ .nil), .nil, .nil, .nil⟩

end Samples

end Arenyxa.Capture.Dns
