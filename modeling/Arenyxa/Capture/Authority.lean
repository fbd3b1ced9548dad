import Arenyxa.Capture.RequestFraming
import Arenyxa.Network.Guard

/-! The authority that the proxy writes for a destination, read again. Texts are ASCII. -/

namespace Arenyxa.Capture

open Outcome HttpError

/-- `text.isdigit()` -/
def isNumber (text : Bytes) : Bool := text ≠ [] && text.all isDigit

/-- `int(text)` on digits. -/
def readPort (digits : Bytes) : Except HttpError Int := do
  require (digits.length ≤ maxIntDigits) (valueError "Exceeds the limit (4300 digits) for integer string conversion")
  return ofDecimal digits

/-- The address in brackets, with what follows the first `]`. -/
def splitBracketed (inside : Bytes) (defaultPort : Int) : Except HttpError (Bytes × Int) :=
  match inside.dropWhile (· ≠ 93) with
  | [] => .error (valueError "Invalid IPv6 authority")
  | [_] => validatedHostPort (inside.takeWhile (· ≠ 93)) defaultPort
  | _ :: colon :: digits => do
    require (colon = 58 ∧ isNumber digits) (valueError "Invalid IPv6 authority port")
    let port ← readPort digits
    validatedHostPort (inside.takeWhile (· ≠ 93)) port

/-- `_split_host_port` -/
def splitHostPort (value : Bytes) (defaultPort : Int) : Except HttpError (Bytes × Int) :=
  match strip value with
  | [] => .error (valueError "Destination host is missing")
  | 91 :: inside => splitBracketed inside defaultPort
  | text =>
    if text.count 58 = 1 then do
      let digits := (text.dropWhile (· ≠ 58)).drop 1
      require (isNumber digits) (valueError "Invalid destination port")
      let port ← readPort digits
      validatedHostPort (text.takeWhile (· ≠ 58)) port
    else validatedHostPort text defaultPort

/-- `ipaddress.ip_address(text).version`, where it is an address. -/
def ipVersion (text : Bytes) : Option Nat :=
  (Network.ipAddress (text.map fun b => Char.ofNat b.toNat)).map fun
    | .v4 _ => 4
    | .v6 _ _ => 6

/-- The text before a zone is an IPv6 address. -/
def isV6 (host : Bytes) : Prop := ipVersion (host.takeWhile (· ≠ 37)) = some 6

instance : DecidablePred isV6 := fun _ => inferInstanceAs (Decidable (_ = _))

/-- The text in brackets is an IPv6 address, or has neither a bracket in front nor a colon, or several colons and no port
but the default one. -/
def RereadableInside (inside : Bytes) (defaultPort : Int) : Prop :=
  let host := stripDots (strip (inside.takeWhile (· ≠ 93)))
  isV6 host ∨ host.head? ≠ some 91 ∧ (58 ∉ host ∨ 1 < host.count 58 ∧
    ((inside.dropWhile (· ≠ 93)).length = 1 ∨ ofDecimal ((inside.dropWhile (· ≠ 93)).drop 2) = defaultPort))

/-- A text without brackets around it is no IPv6 address with a `]` in its zone. -/
def Rereadable (value : Bytes) (defaultPort : Int) : Prop :=
  if (strip value).head? = some 91 then RereadableInside (strip value).tail defaultPort
  else isV6 (stripDots (strip value)) → 93 ∉ strip value

section Hosts

variable {value text h rest : Bytes} {port p d : Int}

/-- A host as the program keeps it. -/
structure Plain (h : Bytes) : Prop where
  nonempty : h ≠ []
  visible : ∀ b ∈ h, 32 < b ∧ b < 127
  undotted : stripDots h = h

theorem stripDots_initial (text : Bytes) : stripDots text <+: text := List.rdropWhile_prefix _ text

theorem strip_visible (visible : ∀ b ∈ text, 32 < b ∧ b < 127) : strip text = text := by
  refine stripBy_eq_self fun b mem => ?_
  have all : ∀ n < 127, 32 < n → isSpace (UInt8.ofNat n) = false := by decide +kernel
  rw [← UInt8.ofNat_toNat (x := b)]
  exact all b.toNat (UInt8.lt_iff_toNat_lt.mp (visible b mem).2) (UInt8.lt_iff_toNat_lt.mp (visible b mem).1)

theorem strip_length (text : Bytes) : (strip text).length ≤ text.length :=
  (List.rdropWhile_prefix _ _).length_le.trans (List.dropWhile_suffix _).length_le

theorem validated_ok_iff : validatedHostPort text port = .ok (h, p) ↔
    stripDots (strip text) = h ∧ h ≠ [] ∧ (∀ b ∈ h, 32 < b ∧ b ≠ 127) ∧ p = port ∧ 1 ≤ port ∧ port ≤ 65535 := by
  have clear : (!(stripDots (strip text)).any fun b => b ≤ 32 || b == 127) = true ↔
      ∀ b ∈ stripDots (strip text), 32 < b ∧ b ≠ 127 := by
    simp
  constructor
  · intro validated
    obtain ⟨_, good, validated⟩ := bind_eq_ok.mp validated
    obtain ⟨_, range, validated⟩ := bind_eq_ok.mp validated
    rw [require_eq_ok, clear] at good
    cases validated
    exact ⟨rfl, good.1, good.2, rfl, require_eq_ok.mp range⟩
  · rintro ⟨rfl, nonempty, visible, rfl, range⟩
    exact bind_eq_ok.mpr ⟨(), require_eq_ok.mpr ⟨nonempty, clear.mpr visible⟩,
      bind_eq_ok.mpr ⟨(), require_eq_ok.mpr range, rfl⟩⟩

theorem validated_length (validated : validatedHostPort text port = .ok (h, p)) : h.length ≤ text.length := by
  obtain ⟨rfl, -⟩ := validated_ok_iff.1 validated
  exact (stripDots_initial _).length_le.trans (strip_length text)

theorem Plain.validated (plain : Plain h) (low : 1 ≤ p) (high : p ≤ 65535) : validatedHostPort h p = .ok (h, p) :=
  validated_ok_iff.2 ⟨by rw [strip_visible plain.visible, plain.undotted], plain.nonempty,
    fun b mem => ⟨(plain.visible b mem).1, UInt8.ne_of_lt (plain.visible b mem).2⟩, rfl, low, high⟩

theorem plain_of_validated (ascii : ∀ b ∈ text, b < 128) (validated : validatedHostPort text port = .ok (h, p)) :
    Plain h := by
  obtain ⟨rfl, nonempty, visible, -⟩ := validated_ok_iff.1 validated
  refine ⟨nonempty, fun b mem => ⟨(visible b mem).1, ?_⟩, List.rdropWhile_idempotent _ _⟩
  have small := ascii b (mem_of_mem_stripBy ((stripDots_initial _).subset mem))
  have other := (visible b mem).2
  rw [UInt8.lt_iff_toNat_lt] at small ⊢
  rw [ne_eq, ← UInt8.toNat_inj] at other
  have : (128 : UInt8).toNat = 128 := rfl
  have : (127 : UInt8).toNat = 127 := rfl
  omega

end Hosts

section Ports

theorem length_decimal_le (k n : Nat) (small : n < 10 ^ (k + 1)) : (decimal n).length ≤ k + 1 := by
  induction k generalizing n with
  | zero =>
    rw [decimal, if_pos (by omega)]
    rfl
  | succ k ih =>
    rw [decimal]
    split
    · simp
    · have := ih (n / 10) (Nat.div_lt_of_lt_mul (by rw [Nat.pow_succ] at small; omega))
      rw [List.length_append, List.length_singleton]
      omega

theorem isNumber_decimal (n : Nat) : isNumber (decimal n) = true := by
  simpa [isNumber, decimal_ne_nil, isDigit] using decimal_digits n

theorem readPort_decimal {p : Int} (low : 1 ≤ p) (high : p ≤ 65535) : readPort (decimal p.toNat) = .ok p := by
  have short : (decimal p.toNat).length ≤ maxIntDigits :=
    (length_decimal_le 4 p.toNat (by omega)).trans (by decide)
  refine bind_eq_ok.mpr ⟨(), require_eq_ok.mpr short, ?_⟩
  rw [ofDecimal_decimal, Int.toNat_of_nonneg (by omega)]
  rfl

theorem not_mem_decimal {b : UInt8} (other : b < 48 ∨ 57 < b) (n : Nat) : b ∉ decimal n := by
  intro mem
  have digit := decimal_digits n b mem
  rw [UInt8.lt_iff_toNat_lt, UInt8.lt_iff_toNat_lt] at other
  rw [UInt8.le_iff_toNat_le, UInt8.le_iff_toNat_le] at digit
  omega

end Ports


section Addresses

theorem length_splitOn (a : Char) (text : List Char) : (text.splitOn a).length = text.count a + 1 := by
  induction text with
  | nil => rfl
  | cons c text ih =>
    rw [List.splitOn_cons_eq_if_modifyHead, List.count_cons]
    split <;> simp [ih]

theorem colons_of_parseV6 {text : List Char} (read : Network.parseV6 text ≠ none) : 1 < text.count ':' := by
  have value : Network.parseV6Value (text.takeWhile (· ≠ '%')) ≠ none := by
    intro none
    simp only [Network.parseV6, none, Option.map_none, ite_self] at read
    split at read <;> exact read rfl
  have parts : 3 ≤ ((text.takeWhile (· ≠ '%')).splitOn ':').length := by
    by_contra few
    rw [Network.parseV6Value, if_pos (by omega)] at value
    exact value rfl
  have := (List.takeWhile_sublist (p := (· ≠ '%')) (l := text)).count_le ':'
  rw [length_splitOn] at parts
  omega

/-- An IPv6 address has two colons at least. -/
theorem isV6.colons {host : Bytes} (six : isV6 host) : 1 < host.count 58 := by
  have colon : ∀ n < 256, Char.ofNat n = ':' → n = 58 := by decide +kernel
  obtain ⟨text, text_eq⟩ : ∃ text, (host.takeWhile (· ≠ 37)).map (fun b => Char.ofNat b.toNat) = text := ⟨_, rfl⟩
  have count : text.count ':' ≤ host.count 58 := by
    rw [← text_eq, List.count, List.countP_map]
    refine (List.countP_mono_left fun b _ same => ?_).trans ((List.takeWhile_sublist _).countP_le)
    exact beq_iff_eq.mpr (UInt8.toNat_inj.mp (colon b.toNat b.toNat_lt (beq_iff_eq.mp same)))
  have read : Network.parseV6 text ≠ none := by
    intro none
    rw [isV6, ipVersion, text_eq, Network.ipAddress, none] at six
    cases v4 : Network.parseV4 text with
    | none => simp [v4] at six
    | some a => simp [v4] at six
  exact (colons_of_parseV6 read).trans_le count

end Addresses

section Rereading

variable {value text h a t rest : Bytes} {p port d : Int} {idna : Bytes → Except HttpError Bytes}

/-- What the authority of a host is read as again. -/
def Again (h : Bytes) (p d : Int) : Prop :=
  if isV6 h then 93 ∉ h else h.head? ≠ some 91 ∧ (58 ∉ h ∨ 1 < h.count 58 ∧ p = d)

def portSuffix (p d : Int) : Bytes := if p = d then [] else 58 :: decimal p.toNat

theorem formatAuthority_eq (identity : ∀ host text, (∀ b ∈ host, b < 128) → idna host = .ok text → text = host)
    (plain : Plain h) (formatted : formatAuthority ipVersion idna h p d = .ok a) :
    a = (if isV6 h then 91 :: h ++ [93] else h) ++ portSuffix p d ∧ 1 ≤ p ∧ p ≤ 65535 := by
  have ascii : ∀ b ∈ h, b < 128 := fun b mem => UInt8.lt_trans (plain.visible b mem).2 (by decide)
  obtain ⟨⟨host, bounded⟩, validated, formatted⟩ := bind_eq_ok.mp formatted
  obtain ⟨its, -, -, rfl, low, high⟩ := validated_ok_iff.1 validated
  rw [strip_visible plain.visible, plain.undotted] at its
  subst its
  obtain ⟨named, name, formatted⟩ := bind_eq_ok.mp formatted
  have named_eq : named = if isV6 h then 91 :: h ++ [93] else h := by
    rw [authorityHost] at name
    cases version : ipVersion (h.takeWhile (· ≠ 37)) with
    | none =>
      rw [version] at name
      rw [if_neg (by rw [isV6, version]; decide), identity h named ascii name]
    | some version' =>
      rw [version] at name
      cases name
      simp only [isV6, version, Option.some.injEq]
  rw [portSuffix, ← named_eq]
  refine ⟨?_, low, high⟩
  split at formatted <;> cases formatted
  · rw [if_pos ‹_›, List.append_nil]
  · rw [if_neg ‹_›]

theorem split_at {b : UInt8} {before after : Bytes} (absent : b ∉ before) :
    (before ++ b :: after).takeWhile (· ≠ b) = before ∧ (before ++ b :: after).dropWhile (· ≠ b) = b :: after := by
  have all : ∀ c ∈ before, decide (c ≠ b) = true := fun c mem => decide_eq_true fun same => absent (same ▸ mem)
  constructor
  · rw [List.takeWhile_append_of_pos all, List.takeWhile_cons_of_neg (by simp), List.append_nil]
  · rw [List.dropWhile_append_of_pos all, List.dropWhile_cons_of_neg (by simp)]

theorem dropWhile_absent {b : UInt8} (absent : b ∉ t) : t.dropWhile (· ≠ b) = [] :=
  List.dropWhile_eq_nil_iff.mpr fun _ mem => decide_eq_true fun same => absent (same ▸ mem)

theorem splitBracketed_host (read : splitBracketed text d = .ok (h, p)) :
    93 ∈ text ∧ ∃ port, validatedHostPort (text.takeWhile (· ≠ 93)) port = .ok (h, p) := by
  have mem : 93 ∈ text := by
    by_contra absent
    rw [splitBracketed, dropWhile_absent absent] at read
    cases read
  rw [splitBracketed] at read
  split at read
  · cases read
  · exact ⟨mem, d, read⟩
  · obtain ⟨_, -, read⟩ := bind_eq_ok.mp read
    obtain ⟨port, -, read⟩ := bind_eq_ok.mp read
    exact ⟨mem, port, read⟩

/-- A host that holds the byte at which it is cut is not read back. -/
theorem validated_cut {b : UInt8} (mem : b ∈ h) :
    validatedHostPort ((h ++ rest).takeWhile (· ≠ b)) port ≠ .ok (h, p) := by
  intro validated
  obtain ⟨before, after, rfl, absent⟩ := List.eq_append_cons_of_mem mem
  rw [List.append_assoc, List.cons_append, (split_at absent).1] at validated
  have := validated_length validated
  rw [List.length_append, List.length_cons] at this
  omega

/-- A host in brackets is read back unless the bracket behind it is not the first. -/
theorem bracketed_again (plain : Plain h) (low : 1 ≤ p) (high : p ≤ 65535) :
    splitBracketed (h ++ 93 :: portSuffix p d) d = .ok (h, p) ↔ 93 ∉ h := by
  constructor
  · intro read mem
    obtain ⟨-, port, validated⟩ := splitBracketed_host read
    exact validated_cut mem validated
  · intro absent
    rw [splitBracketed, (split_at absent).1, (split_at absent).2, portSuffix]
    by_cases same : p = d
    · rw [if_pos same, ← same]
      exact plain.validated low high
    · rw [if_neg same]
      exact bind_eq_ok.mpr ⟨(), require_eq_ok.mpr ⟨rfl, isNumber_decimal _⟩,
        bind_eq_ok.mpr ⟨p, readPort_decimal low high, plain.validated low high⟩⟩

theorem visible_decimal (n : Nat) : ∀ b ∈ decimal n, 32 < b ∧ b < 127 := by
  intro b mem
  have digit := decimal_digits n b mem
  exact ⟨UInt8.lt_of_lt_of_le (by decide) digit.1, UInt8.lt_of_le_of_lt digit.2 (by decide)⟩

theorem splitHostPort_bare (visible : ∀ b ∈ text, 32 < b ∧ b < 127) (nonempty : text ≠ []) (bare : text.head? ≠ some 91) :
    splitHostPort text d =
      if text.count 58 = 1 then do
        let digits := (text.dropWhile (· ≠ 58)).drop 1
        require (isNumber digits) (valueError "Invalid destination port")
        let port ← readPort digits
        validatedHostPort (text.takeWhile (· ≠ 58)) port
      else validatedHostPort text d := by
  rw [splitHostPort, strip_visible visible]
  split
  · exact absurd rfl nonempty
  · exact absurd rfl bare
  · rfl

/-- A host that starts with a bracket is not read back. -/
theorem bracket_lost (visible : ∀ b ∈ 91 :: t ++ portSuffix p d, 32 < b ∧ b < 127) :
    splitHostPort (91 :: t ++ portSuffix p d) d ≠ .ok (91 :: t, p) := by
  intro read
  rw [splitHostPort, strip_visible visible] at read
  obtain ⟨mem, port, validated⟩ := splitBracketed_host read
  have inside : 93 ∈ t := by
    rcases List.mem_append.mp mem with mem | mem
    · exact mem
    · rw [portSuffix] at mem
      split at mem
      · cases mem
      · exact absurd ((List.mem_cons.mp mem).resolve_left (by decide)) (not_mem_decimal (.inr (by decide)) _)
  obtain ⟨before, after, rfl, absent⟩ := List.eq_append_cons_of_mem inside
  rw [List.append_eq, List.append_assoc, List.cons_append, (split_at absent).1] at validated
  have := validated_length validated
  rw [List.length_cons, List.length_append] at this
  omega

theorem bare_again (plain : Plain h) (low : 1 ≤ p) (high : p ≤ 65535) (bare : h.head? ≠ some 91)
    (visible : ∀ b ∈ h ++ portSuffix p d, 32 < b ∧ b < 127) :
    splitHostPort (h ++ portSuffix p d) d = .ok (h, p) ↔ 58 ∉ h ∨ 1 < h.count 58 ∧ p = d := by
  have nonempty := plain.nonempty
  have head : (h ++ portSuffix p d).head? ≠ some 91 := by
    rwa [List.head?_append_of_ne_nil _ nonempty]
  rw [splitHostPort_bare visible (by simp [nonempty]) head]
  by_cases same : p = d
  · rw [portSuffix, if_pos same, List.append_nil, ← same]
    have whole : validatedHostPort h p = .ok (h, p) := plain.validated low high
    split
    next one =>
      have mem : 58 ∈ h := List.count_pos_iff.mp (by omega)
      refine iff_of_false (fun read => ?_) fun again => again.elim (· mem) (by omega)
      obtain ⟨_, -, read⟩ := bind_eq_ok.mp read
      obtain ⟨port, -, read⟩ := bind_eq_ok.mp read
      have cut : validatedHostPort ((h ++ []).takeWhile (· ≠ 58)) port = .ok (h, p) := by rwa [List.append_nil]
      exact validated_cut mem cut
    next other =>
      refine iff_of_true whole ?_
      rcases Nat.eq_zero_or_pos (h.count 58) with none | some
      · exact .inl (List.count_eq_zero.mp none)
      · exact .inr ⟨by omega, rfl⟩
  · rw [portSuffix, if_neg same]
    have digits : (decimal p.toNat).count 58 = 0 := List.count_eq_zero.mpr (not_mem_decimal (.inr (by decide)) _)
    have total : (h ++ 58 :: decimal p.toNat).count 58 = h.count 58 + 1 := by
      rw [List.count_append, List.count_cons_self, digits]
    rw [total]
    split
    next none =>
      have absent : 58 ∉ h := List.count_eq_zero.mp (by omega)
      refine iff_of_true ?_ (.inl absent)
      rw [(split_at absent).1, (split_at absent).2]
      exact bind_eq_ok.mpr ⟨(), require_eq_ok.mpr (isNumber_decimal _),
        bind_eq_ok.mpr ⟨p, readPort_decimal low high, plain.validated low high⟩⟩
    next some =>
      have mem : 58 ∈ h := List.count_pos_iff.mp (by omega)
      refine iff_of_false (fun read => same (validated_ok_iff.1 read).2.2.2.1) ?_
      rintro (absent | ⟨-, its⟩)
      · exact absent mem
      · exact same its

/-- What is written for a host is read back as it is. -/
theorem formatAuthority_again (identity : ∀ host text, (∀ b ∈ host, b < 128) → idna host = .ok text → text = host)
    (plain : Plain h) (formatted : formatAuthority ipVersion idna h p d = .ok a) :
    splitHostPort a d = .ok (h, p) ↔ Again h p d := by
  obtain ⟨rfl, low, high⟩ := formatAuthority_eq identity plain formatted
  have suffix : ∀ b ∈ portSuffix p d, 32 < b ∧ b < 127 := by
    rw [portSuffix]
    split
    · exact nofun
    · exact List.forall_mem_cons.mpr ⟨by decide, visible_decimal _⟩
  rw [Again]
  by_cases six : isV6 h
  · have visible : ∀ b ∈ 91 :: h ++ [93] ++ portSuffix p d, 32 < b ∧ b < 127 := by
      simp only [List.mem_append, List.mem_cons, List.not_mem_nil, or_false]
      rintro b (((rfl | mem) | rfl) | mem)
      · decide
      · exact plain.visible b mem
      · decide
      · exact suffix b mem
    rw [if_pos six, if_pos six, ← bracketed_again (d := d) plain low high, splitHostPort, strip_visible visible]
    simp
  · rw [if_neg six, if_neg six]
    have visible : ∀ b ∈ h ++ portSuffix p d, 32 < b ∧ b < 127 := fun b mem =>
      (List.mem_append.mp mem).elim (plain.visible b) (suffix b)
    by_cases bare : h.head? = some 91
    · obtain ⟨t, rfl⟩ : ∃ t, h = 91 :: t := List.head?_eq_some_iff.mp bare
      exact iff_of_false (bracket_lost visible) fun again => again.1 bare
    · rw [bare_again plain low high bare visible]
      exact ⟨fun again => ⟨bare, again⟩, And.right⟩

theorem count_stripDots {b : UInt8} (other : b ≠ 46) (text : Bytes) : (stripDots text).count b = text.count b := by
  have dots : (text.rtakeWhile (· = 46)).count b = 0 :=
    List.count_eq_zero.mpr fun mem => absurd (List.mem_rtakeWhile_imp mem) (by simp [other])
  have parts := congrArg (List.count b) (List.rdropWhile_append_rtakeWhile (p := fun b => b = 46) (l := text))
  rwa [List.count_append, dots, Nat.add_zero] at parts

/-- A text without space around it has the first character of every host that is cut from its front. -/
theorem strip_takeWhile_initial {q : UInt8 → Bool} (unspaced : strip text = text) :
    strip (text.takeWhile q) <+: text := by
  have front : (text.takeWhile q).dropWhile isSpace = text.takeWhile q := by
    cases text with
    | nil => rfl
    | cons b rest =>
      have solid : isSpace b = false := by
        by_contra space
        have shorter : (strip (b :: rest)).length ≤ rest.length := by
          rw [strip, stripBy, List.dropWhile_cons_of_pos (Bool.not_eq_false _ ▸ space)]
          exact strip_length rest
        rw [unspaced, List.length_cons] at shorter
        omega
      rw [List.takeWhile_cons]
      split
      · exact List.dropWhile_cons_of_neg (by simp [solid])
      · rfl
  rw [strip, stripBy, front]
  exact (List.rdropWhile_prefix _ _).trans (List.takeWhile_prefix _)

theorem again_bracketed (read : splitBracketed text d = .ok (h, p)) :
    h = stripDots (strip (text.takeWhile (· ≠ 93))) ∧
      (p = d ↔ (text.dropWhile (· ≠ 93)).length = 1 ∨ ofDecimal ((text.dropWhile (· ≠ 93)).drop 2) = d) := by
  rw [splitBracketed] at read
  split at read
  · cases read
  next found =>
    obtain ⟨rfl, -, -, rfl, -⟩ := validated_ok_iff.1 read
    exact ⟨rfl, iff_of_true rfl (.inl (by rw [found]; rfl))⟩
  next colon digits found =>
    obtain ⟨_, -, read⟩ := bind_eq_ok.mp read
    obtain ⟨port, number, read⟩ := bind_eq_ok.mp read
    obtain ⟨_, -, number⟩ := bind_eq_ok.mp number
    cases number
    obtain ⟨rfl, -, -, rfl, -⟩ := validated_ok_iff.1 read
    rw [found]
    exact ⟨rfl, .inr, fun its => its.resolve_left (by simp)⟩

theorem again_iff (read : splitHostPort value d = .ok (h, p)) : Again h p d ↔ Rereadable value d := by
  have unspaced : strip (strip value) = strip value := stripBy_idem
  rw [splitHostPort] at read
  rw [Rereadable]
  generalize strip value = text at read unspaced ⊢
  split at read
  · cases read
  next inside =>
    obtain ⟨rfl, port⟩ := again_bracketed read
    have closed : 93 ∉ stripDots (strip (inside.takeWhile (· ≠ 93))) := fun mem =>
      absurd (List.mem_takeWhile_imp (mem_of_mem_stripBy ((stripDots_initial _).subset mem))) (by simp)
    rw [if_pos List.head?_cons, Again, RereadableInside, List.tail_cons, ← port]
    split
    next six => exact iff_of_true closed (.inl six)
    next other => exact (or_iff_right other).symm
  next _ _ bracketed =>
    have bare : text.head? ≠ some 91 := fun head => by
      obtain ⟨t, head⟩ := List.head?_eq_some_iff.mp head
      exact bracketed t head
    rw [if_neg bare, Again]
    have front {h : Bytes} (nonempty : h ≠ []) (cut : h <+: text) : h.head? ≠ some 91 := by
      obtain ⟨rest, rfl⟩ := cut
      rwa [List.head?_append_of_ne_nil _ nonempty] at bare
    split at read
    next one =>
      obtain ⟨_, -, read⟩ := bind_eq_ok.mp read
      obtain ⟨port, -, read⟩ := bind_eq_ok.mp read
      obtain ⟨rfl, nonempty, -⟩ := validated_ok_iff.1 read
      have absent : 58 ∉ stripDots (strip (text.takeWhile (· ≠ 58))) := fun mem =>
        absurd (List.mem_takeWhile_imp (mem_of_mem_stripBy ((stripDots_initial _).subset mem))) (by simp)
      have narrow : ¬isV6 (stripDots text) := fun six => by
        have := six.colons
        rw [count_stripDots (by decide), one] at this
        omega
      rw [if_neg fun six => absent (List.count_pos_iff.mp (Nat.zero_lt_of_lt (isV6.colons six)))]
      exact iff_of_true ⟨front nonempty ((stripDots_initial _).trans (strip_takeWhile_initial unspaced)), .inl absent⟩
        fun six => absurd six narrow
    next several =>
      obtain ⟨rfl, nonempty, -, rfl, -⟩ := validated_ok_iff.1 read
      rw [unspaced] at nonempty ⊢
      have colons := count_stripDots (b := 58) (by decide) text
      have bracket : 93 ∈ stripDots text ↔ 93 ∈ text := by
        rw [← List.count_pos_iff, count_stripDots (by decide), List.count_pos_iff]
      split
      next six => rw [bracket]; exact ⟨fun absent _ => absent, fun absent => absent six⟩
      next other =>
        refine iff_of_true ⟨front nonempty (stripDots_initial _), ?_⟩ fun six => absurd six other
        rcases Nat.eq_zero_or_pos ((stripDots text).count 58) with none | some
        · exact .inl (List.count_eq_zero.mp none)
        · exact .inr ⟨by omega, rfl⟩

theorem plain_of_split (ascii : ∀ b ∈ value, b < 128) (split : splitHostPort value d = .ok (h, p)) : Plain h := by
  have ascii : ∀ b ∈ strip value, b < 128 := fun b mem => ascii b (mem_of_mem_stripBy mem)
  rw [splitHostPort] at split
  generalize strip value = text at split ascii
  split at split
  · cases split
  · obtain ⟨-, port, validated⟩ := splitBracketed_host split
    exact plain_of_validated (fun b mem => ascii b (.tail _ ((List.takeWhile_sublist _).subset mem))) validated
  · split at split
    · obtain ⟨_, -, split⟩ := bind_eq_ok.mp split
      obtain ⟨_, -, split⟩ := bind_eq_ok.mp split
      exact plain_of_validated (fun b mem => ascii b ((List.takeWhile_sublist _).subset mem)) split
    · exact plain_of_validated ascii split

/-- The authority written for a destination is read back as that destination if and only if what is left of the value
without brackets, port and dots keeps its meaning. -/
theorem authority_rereads_iff
    (identity : ∀ host text, (∀ b ∈ host, b < 128) → idna host = .ok text → text = host)
    (ascii : ∀ b ∈ value, b < 128) (split : splitHostPort value d = .ok (h, p))
    (formatted : formatAuthority ipVersion idna h p d = .ok a) :
    splitHostPort a d = .ok (h, p) ↔ Rereadable value d := by
  rw [formatAuthority_again identity (plain_of_split ascii split) formatted, again_iff split]

theorem authority_rereads_v6 : splitHostPort (ascii "[::1]") 443 = .ok (ascii "::1", 443) ↔
    Rereadable (ascii " [::1.]") 443 :=
  authority_rereads_iff (fun _ _ _ its => (Except.ok.inj its).symm) (by decide +kernel) rfl rfl

/-- A name in brackets that ends as a port does is read back as another name with that port. -/
theorem authority_misread : ∃ value d h p a, (∀ b ∈ value, b < 128) ∧ splitHostPort value d = .ok (h, p) ∧
    formatAuthority ipVersion Except.ok h p d = .ok a ∧ splitHostPort a d ≠ .ok (h, p) :=
  ⟨ascii "[a:80]", 443, ascii "a:80", 443, ascii "a:80", by decide +kernel, rfl, rfl, by
    have other : splitHostPort (ascii "a:80") 443 = .ok (ascii "a", 80) := rfl
    rw [other]
    decide⟩

end Rereading

end Arenyxa.Capture
