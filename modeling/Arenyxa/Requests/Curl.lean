import Arenyxa.Lib.Shell
import Arenyxa.Registry.Json
import Mathlib.Tactic.IntervalCases

/-! The specifications of requests, and what is checked of them. -/

namespace Arenyxa.Requests

open Registry (Text text)

/-- A dictionary, in the order of its keys. -/
abbrev Dict := List (Text × Text)

/-- A float, where it is finite. -/
abbrev Float? := Option ℚ

structure RetryPolicy where
  attempts : ℤ
  initialBackoffSeconds : Float?
  maxBackoffSeconds : Float?
  retryStatuses : List ℤ
  allowNonIdempotent : Bool

structure RequestSpec where
  url : Text
  method : Text
  query : Dict
  headers : Dict
  cookies : Dict
  body : Option Text
  contentType : Option Text
  connectTimeout : Float?
  readTimeout : Float?
  verifyTls : Bool
  proxy : Option Text
  userAgent : Text
  retry : RetryPolicy

/-- What `urlparse` gives, with the host name in lower case. -/
structure UrlParts where
  scheme : Text
  netloc : Text
  path : Text
  query : Text
  fragment : Text
  hostname : Text

structure Library where
  casefold : Text → Text
  upper : Text → Text
  strip : Text → Text
  isSpace : Nat → Bool
  /-- `urlparse` with its host name and port, where none of them raises. -/
  urlparse : Text → Option UrlParts
  /-- Whether the host name has a form in IDNA. -/
  idna : Text → Bool
  /-- `urlsplit` of a URL that `urlparse` accepts. -/
  urlsplit : Text → UrlParts
  urlunsplit : UrlParts → Text
  urlencode : Dict → Text

def methods : List Text :=
  [text "GET", text "POST", text "PUT", text "PATCH", text "DELETE", text "HEAD", text "OPTIONS"]

/-- What `_HTTP_TOKEN` matches. -/
def httpToken (t : Text) : Bool :=
  t ≠ [] && t.all fun c => (0x30 ≤ c && c ≤ 0x39) || (0x41 ≤ c && c ≤ 0x5a) || (0x61 ≤ c && c ≤ 0x7a) ||
    (text "!#$%&'*+.^_|~-").contains c || c == 0x60

def control (c : Nat) : Bool := c < 32 || c == 127

/-- A control character, but no tab. -/
def valueControl (c : Nat) : Bool := (c < 32 && c ≠ 9) || c == 127

variable (lib : Library)

def urlErrors (url : Text) : List String :=
  let good := match lib.urlparse url with
    | none => false
    | some parsed =>
      (parsed.hostname = [] || lib.idna parsed.hostname) &&
        (lib.casefold parsed.scheme = text "http" || lib.casefold parsed.scheme = text "https") &&
        parsed.netloc ≠ [] && parsed.hostname ≠ [] && !url.any fun c => c < 32 || lib.isSpace c
  if good then [] else ["URL 必须使用 http 或 https，且包含有效主机/端口且不能含控制或空白字符。"]

def timeoutErrors (label : String) : Float? → List String
  | none => [label ++ "必须是大于 0 的有限数字。"]
  | some x =>
    if x ≤ 0 then [label ++ "必须是大于 0 的有限数字。"]
    else if 600 < x then [label ++ "不能超过 600 秒，以保证取消和退出具有有限等待边界。"] else []

/-- The first error of a mapping. -/
def mappingErrors (label : String) : Dict → List String
  | [] => []
  | (key, value) :: items =>
    if label = "Headers" ∧ ¬ httpToken key then ["Headers 包含无效的 HTTP 字段名称。"]
    else if key.any control then [label ++ " 的键不允许包含控制字符。"]
    else if value.any valueControl then [label ++ " 不允许包含 CR/LF 或其他 HTTP 控制字符。"]
    else mappingErrors label items

def proxyErrors (proxy : Text) : List String :=
  if proxy = [] then []
  else
    let good := match lib.urlparse proxy with
      | none => false
      | some parsed =>
        (lib.casefold parsed.scheme = text "http" || lib.casefold parsed.scheme = text "https") &&
          parsed.hostname ≠ []
    if good then [] else ["代理地址必须是包含有效主机/端口的 http 或 https URL。"]

def userAgentErrors (userAgent : Text) : List String :=
  if lib.strip userAgent = [] then ["User-Agent 必须是非空字符串。"]
  else if userAgent.any valueControl then ["User-Agent 不允许包含 HTTP 控制字符。"] else []

def RetryPolicy.backoffErrors (r : RetryPolicy) : List String :=
  match r.initialBackoffSeconds, r.maxBackoffSeconds with
  | some initial, some maximum =>
    if initial < 0 ∨ maximum < 0 then ["重试退避时间必须是非负有限数字。"]
    else if maximum < initial then ["最大重试退避时间不能小于初始退避时间。"]
    else if 3600 < maximum then ["最大重试退避时间不能超过 3600 秒。"] else []
  | _, _ => ["重试退避时间必须是非负有限数字。"]

def RetryPolicy.errors (r : RetryPolicy) : List String :=
  (if r.attempts < 0 ∨ 10 < r.attempts then ["重试次数必须位于 0 到 10。"] else []) ++ r.backoffErrors ++
    if r.retryStatuses.any fun status => status < 100 || 599 < status then
      ["重试 HTTP 状态码必须位于 100 到 599。"] else []

/-- `validate`, where the fields have their types. -/
def RequestSpec.validate (spec : RequestSpec) : List String :=
  urlErrors lib spec.url ++
    (if lib.upper spec.method ∈ methods then [] else ["HTTP 方法不受支持。"]) ++
    timeoutErrors "连接超时" spec.connectTimeout ++ timeoutErrors "读取超时" spec.readTimeout ++
    mappingErrors "Headers" spec.headers ++ mappingErrors "Query" spec.query ++
    mappingErrors "Cookies" spec.cookies ++
    (if (spec.contentType.getD []).any valueControl then ["Content-Type 不允许包含 HTTP 控制字符。"] else []) ++
    proxyErrors lib (spec.proxy.getD []) ++ userAgentErrors lib spec.userAgent ++ spec.retry.errors

/-- `_build_url` -/
def buildUrl (spec : RequestSpec) : Text :=
  if spec.query = [] then spec.url
  else
    let parts := lib.urlsplit spec.url
    let queries := [parts.query, lib.urlencode spec.query].filter (· ≠ [])
    lib.urlunsplit { parts with query := [0x26].intercalate queries }

theorem method_valid {lib : Library} {spec : RequestSpec} (valid : spec.validate lib = []) :
    lib.upper spec.method ∈ methods := by
  simp only [RequestSpec.validate, List.append_eq_nil_iff] at valid
  by_contra other
  have error := valid.1.1.1.1.1.1.1.1.1.2
  rw [if_neg other] at error
  cases error

end Arenyxa.Requests

/-! The curl command of a request, as a shell reads it. -/

namespace Arenyxa.Requests

open Registry (Text text)

open Shell

def hexDigit (n : Nat) : Nat := if n < 10 then 0x30 + n else 0x57 + n

def hex4 (n : Nat) : Text := [n / 4096 % 16, n / 256 % 16, n / 16 % 16, n % 16].map hexDigit

def printable (c : Nat) : Bool := 0x20 ≤ c && c ≤ 0x7e

/-- What `json.dumps` writes for a code point that is not printable, without its backslashes. -/
def escapes (c : Nat) : List Text :=
  if c = 0x0a then [text "n"]
  else if c = 0x0d then [text "r"]
  else if c = 0x09 then [text "t"]
  else if c = 0x0c then [text "f"]
  else if c = 0x08 then [text "b"]
  else if c < 0x10000 then [0x75 :: hex4 c]
  else [0x75 :: hex4 (0xd800 + (c - 0x10000) / 0x400), 0x75 :: hex4 (0xdc00 + (c - 0x10000) % 0x400)]

/-- What `json.dumps` writes for a code point of a string. -/
def escape (c : Nat) : Text :=
  if c = quote ∨ c = backslash then [backslash, c]
  else if printable c then [c] else (escapes c).flatMap (backslash :: ·)

/-- `json.dumps` of a string. -/
def dumps (t : Text) : Text := quote :: (t.flatMap escape ++ [quote])

/-- An argument as it is put into the command. -/
inductive Argument
  | bare (word : Text)
  | dumped (t : Text)

namespace Argument

def written : Argument → Text
  | bare word => word
  | dumped t => dumps t

/-- What the argument stands for. -/
def value : Argument → Text
  | bare word => word
  | dumped t => t

end Argument

variable (lib : Library)

/-- The headers with those of the user agent and the content type. -/
def headersOf (spec : RequestSpec) : Dict :=
  let folded := spec.headers.map fun item => lib.casefold item.1
  let agent := if spec.userAgent ≠ [] ∧ text "user-agent" ∉ folded then [(text "User-Agent", spec.userAgent)] else []
  let content := match spec.contentType with
    | some t => if t ≠ [] ∧ text "content-type" ∉ folded then [(text "Content-Type", t)] else []
    | none => []
  spec.headers ++ agent ++ content

/-- The arguments behind the name of the command. -/
def arguments (spec : RequestSpec) : List Argument :=
  [.bare (text "-X"), .bare (lib.upper spec.method), .dumped (buildUrl lib spec)] ++
    ((headersOf lib spec).flatMap fun item =>
      [.bare (text "-H"), .dumped (item.1 ++ text ": " ++ item.2)]) ++
    (spec.cookies.flatMap fun item => [.bare (text "-b"), .dumped (item.1 ++ text "=" ++ item.2)]) ++
    (match spec.body with
      | some body => [.bare (text "--data-raw"), .dumped body]
      | none => []) ++
    (match spec.proxy with
      | some proxy => if proxy = [] then [] else [.bare (text "--proxy"), .dumped proxy]
      | none => []) ++
    if spec.verifyTls then [] else [.bare (text "-k")]

/-- `generate(spec, "curl")` -/
def generate (spec : RequestSpec) : Except (List String) Text :=
  if spec.validate lib ≠ [] then .error (spec.validate lib)
  else .ok ([0x20].intercalate (text "curl" :: (arguments lib spec).map Argument.written))

/-- The arguments that the request asks for. -/
def argv (spec : RequestSpec) : List Text := text "curl" :: (arguments lib spec).map Argument.value

/-- A text that a shell reads back from double quotes: printable, and nothing in it begins an expansion. -/
def Plain : Text → Prop
  | [] => True
  | c :: t => (printable c = true ∧ c ≠ backquote ∧ (c = dollar → expands t = false)) ∧ Plain t

instance : (t : Text) → Decidable (Plain t)
  | [] => inferInstanceAs (Decidable True)
  | _ :: t =>
    have := instDecidablePlain t
    inferInstanceAs (Decidable ((_ ∧ _ ∧ _) ∧ Plain t))

section Strings

variable {lib} {t s w : Text}

/-- What a shell reads from a string in JSON. -/
def seen : Text → Option Text
  | [] => some []
  | c :: t =>
    if c = backquote ∨ (c = dollar ∧ expands t) then none
    else (seen t).map ((if printable c then [c] else (escapes c).flatMap (backslash :: ·)) ++ ·)

theorem plain_hex4 (n : Nat) : ∀ c ∈ hex4 n, plain c = true := by
  intro c mem
  obtain ⟨d, digit, rfl⟩ := List.mem_map.mp mem
  have small : d < 16 := by
    simp only [List.mem_cons, List.not_mem_nil, or_false] at digit
    omega
  clear mem digit
  interval_cases d <;> decide

theorem plain_escapes (c : Nat) : ∀ e ∈ escapes c, e ≠ [] ∧ ∀ d ∈ e, plain d = true := by
  have hex : ∀ n, (0x75 :: hex4 n) ≠ [] ∧ ∀ d ∈ 0x75 :: hex4 n, plain d = true := fun n =>
    ⟨List.cons_ne_nil _ _, List.forall_mem_cons.mpr ⟨by decide, plain_hex4 n⟩⟩
  have short : ∀ e ∈ [text "n", text "r", text "t", text "f", text "b"], e ≠ [] ∧ ∀ d ∈ e, plain d = true := by decide
  intro e mem
  rw [escapes] at mem
  split at mem
  · exact short e (by simp_all)
  split at mem
  · exact short e (by simp_all)
  split at mem
  · exact short e (by simp_all)
  split at mem
  · exact short e (by simp_all)
  split at mem
  · exact short e (by simp_all)
  split at mem
  · cases List.mem_singleton.mp mem
    exact hex _
  · rcases List.mem_cons.mp mem with rfl | last
    · exact hex _
    · cases List.mem_singleton.mp last
      exact hex _

theorem read_escapes {es : List Text} (all : ∀ e ∈ es, e ≠ [] ∧ ∀ d ∈ e, plain d = true) :
    read .double w (es.flatMap (backslash :: ·) ++ s) = read .double (w ++ es.flatMap (backslash :: ·)) s := by
  induction es generalizing w with
  | nil => rw [List.flatMap_nil, List.nil_append, List.append_nil]
  | cons e es ih =>
    obtain ⟨⟨some, letters⟩, rest⟩ := List.forall_mem_cons.mp all
    rw [List.flatMap_cons, List.append_assoc, List.cons_append, read_double_escape some letters, ih rest,
      List.append_assoc, List.cons_append]

theorem expansion_printable {c : Nat} (h : expansion c = true) : printable c = true ∧ c ≠ quote ∧ c ≠ backslash := by
  simp only [expansion, letter, digit, List.contains_eq_mem, List.mem_cons, List.not_mem_nil, or_false,
    Bool.or_eq_true, Bool.and_eq_true, decide_eq_true_eq] at h
  simp only [printable, quote, backslash, Bool.and_eq_true, decide_eq_true_eq]
  omega

theorem escapes_some (c : Nat) : ∃ e es, escapes c = e :: es := by
  rw [escapes]
  repeat' split
  all_goals exact ⟨_, _, rfl⟩

theorem expands_escape : expands (t.flatMap escape ++ quote :: s) = expands t := by
  cases t with
  | nil => rfl
  | cons c t =>
    have first : expansion backslash = false := by decide
    rw [List.flatMap_cons, List.append_assoc, escape]
    split
    next special =>
      rw [List.cons_append, expands, expands, first]
      rcases special with rfl | rfl <;> decide
    next plain =>
      split
      · rfl
      next other =>
        have none : expansion c = false := Bool.eq_false_iff.mpr fun its => other (expansion_printable its).1
        obtain ⟨e, es, its⟩ := escapes_some c
        rw [its, List.flatMap_cons, List.append_assoc, List.cons_append, expands, expands, first, none]

theorem read_string :
    read .double w (t.flatMap escape ++ quote :: s) = (seen t).bind fun u => read .bare (w ++ u) s := by
  induction t generalizing w with
  | nil => rw [List.flatMap_nil, List.nil_append, Shell.read, if_pos rfl, seen, Option.bind_some, List.append_nil]
  | cons c t ih =>
    have next : ∀ shown : Text, (read .double (w ++ shown) (t.flatMap escape ++ quote :: s)) =
        ((seen t).map (shown ++ ·)).bind fun u => read .bare (w ++ u) s := by
      intro shown
      rw [ih, Option.bind_map]
      exact congrArg _ (funext fun u => by rw [Function.comp_apply, List.append_assoc])
    rw [List.flatMap_cons, List.append_assoc, seen]
    by_cases escaped : c = quote ∨ c = backslash
    · have shown : printable c = true := by rcases escaped with rfl | rfl <;> decide
      have quiet : ¬ (c = backquote ∨ c = dollar ∧ expands t = true) := by
        rcases escaped with rfl | rfl <;> simp [quote, backslash, backquote, dollar]
      have kept : c ≠ newline ∧ escapable c = true := by rcases escaped with rfl | rfl <;> decide
      rw [escape, if_pos escaped, if_neg quiet, if_pos shown, ← next, List.cons_append, Shell.read,
        if_neg (by decide), if_neg (by simp [backslash, backquote, dollar]), if_pos rfl, List.cons_append,
        Shell.read, if_neg kept.1, if_pos kept.2, List.nil_append]
    · obtain ⟨nq, nb⟩ := not_or.mp escaped
      rw [escape, if_neg escaped]
      by_cases shown : printable c = true
      · rw [if_pos shown]
        by_cases expanded : c = backquote ∨ c = dollar ∧ expands t = true
        · rw [if_pos expanded, List.cons_append, List.nil_append, Shell.read, if_neg nq, expands_escape,
            if_pos expanded, Option.bind_none]
        · rw [if_neg expanded, ← next, List.cons_append, List.nil_append, Shell.read, if_neg nq, expands_escape,
            if_neg expanded, if_neg nb]
      · have quiet : ¬ (c = backquote ∨ c = dollar ∧ expands t = true) := by
          rintro (rfl | ⟨rfl, -⟩) <;> exact shown (by decide)
        rw [if_neg shown, if_neg quiet, ← next, read_escapes (plain_escapes c)]

theorem seen_plain : seen t = some t ↔ Plain t := by
  induction t with
  | nil => exact ⟨fun _ => trivial, fun _ => rfl⟩
  | cons c t ih =>
    rw [seen, Plain]
    by_cases expanded : c = backquote ∨ c = dollar ∧ expands t = true
    · rw [if_pos expanded]
      refine ⟨fun none => (Option.some_ne_none _ none.symm).elim, fun ⟨⟨_, nb, nd⟩, _⟩ => ?_⟩
      rcases expanded with its | ⟨its, expands⟩
      · exact absurd its nb
      · exact absurd expands (Bool.eq_false_iff.mp (nd its))
    · rw [if_neg expanded]
      obtain ⟨nb, nd⟩ := not_or.mp expanded
      have quiet : c = dollar → expands t = false := fun its => Bool.eq_false_iff.mpr fun expands => nd ⟨its, expands⟩
      by_cases shown : printable c = true
      · rw [if_pos shown, and_iff_right ⟨shown, nb, quiet⟩, ← ih]
        constructor
        · intro same
          obtain ⟨u, its, same⟩ := Option.map_eq_some_iff.mp same
          have tail : u = t := (List.cons.inj same).2
          rw [its, tail]
        · intro same
          rw [same]
          rfl
      · rw [if_neg shown]
        refine ⟨fun same => ?_, fun ⟨⟨own, _⟩, _⟩ => absurd own shown⟩
        obtain ⟨u, -, same⟩ := Option.map_eq_some_iff.mp same
        obtain ⟨e, es, its⟩ := escapes_some c
        rw [its, List.flatMap_cons, List.append_assoc, List.cons_append] at same
        exact absurd ((List.cons.inj same).1 ▸ (by decide : printable backslash = true)) shown

end Strings

section Commands

variable {lib} {spec : RequestSpec}

/-- What a shell reads from an argument. -/
def Argument.seen : Argument → Option Text
  | .bare word => some word
  | .dumped t => Requests.seen t

/-- A word without quotes that a shell reads as it is. -/
def Argument.Readable : Argument → Prop
  | .bare word => word ≠ [] ∧ ∀ c ∈ word, plain c = true
  | .dumped _ => True

instance : (a : Argument) → Decidable a.Readable
  | .bare _ => inferInstanceAs (Decidable (_ ∧ _))
  | .dumped _ => inferInstanceAs (Decidable True)

theorem read_argument (a : Argument) (readable : a.Readable) (s : Text) :
    read .between [] (a.written ++ s) = a.seen.bind fun u => read .bare u s := by
  cases a with
  | bare word => exact read_word readable.1 readable.2
  | dumped t =>
    rw [Argument.written, dumps, List.cons_append, List.append_assoc, Shell.read, if_neg (by decide), if_pos rfl]
    exact read_string

theorem read_arguments (args : List Argument) (readable : ∀ a ∈ args, a.Readable) :
    read .between [] ([0x20].intercalate (args.map Argument.written)) = args.mapM Argument.seen := by
  induction args with
  | nil => rfl
  | cons a args ih =>
    obtain ⟨own, rest⟩ := List.forall_mem_cons.mp readable
    cases args with
    | nil =>
      have whole := read_argument a own []
      rw [List.append_nil] at whole
      simp only [List.map_cons, List.map_nil, List.intercalate_singleton, whole, read_bare_end, List.mapM_cons,
        List.mapM_nil]
      cases a.seen <;> rfl
    | cons b args =>
      rw [List.map_cons, List.map_cons, List.intercalate_cons_cons, ← List.map_cons, List.append_assoc,
        read_argument a own, List.mapM_cons]
      cases a.seen with
      | none => rfl
      | some u =>
        rw [Option.bind_some, List.singleton_append, read_bare_blank, ih rest]
        cases (b :: args).mapM Argument.seen <;> rfl

theorem mapM_seen (args : List Argument) :
    args.mapM Argument.seen = some (args.map Argument.value) ↔ ∀ a ∈ args, a.seen = some a.value := by
  induction args with
  | nil => exact ⟨fun _ _ mem => absurd mem List.not_mem_nil, fun _ => rfl⟩
  | cons a args ih =>
    rw [List.forall_mem_cons, ← ih, List.mapM_cons, List.map_cons]
    cases a.seen with
    | none =>
      exact ⟨fun its => (Option.some_ne_none _ its.symm).elim, fun its => (Option.some_ne_none _ its.1.symm).elim⟩
    | some u =>
      cases args.mapM Argument.seen with
      | none =>
        exact ⟨fun its => (Option.some_ne_none _ its.symm).elim, fun its => (Option.some_ne_none _ its.2.symm).elim⟩
      | some us =>
        change some (u :: us) = some _ ↔ _
        rw [Option.some_inj, Option.some_inj, Option.some_inj, List.cons.injEq]

theorem readable_arguments (valid : spec.validate lib = []) :
    ∀ a ∈ Argument.bare (text "curl") :: arguments lib spec, a.Readable := by
  have methods_plain : ∀ m ∈ methods, m ≠ [] ∧ ∀ c ∈ m, plain c = true := by decide
  have options : ∀ word ∈ [text "curl", text "-X", text "-H", text "-b", text "--data-raw", text "--proxy",
        text "-k"],
      (Argument.bare word).Readable := by decide
  intro a mem
  simp only [arguments, List.mem_append, List.mem_flatMap, List.mem_cons, List.not_mem_nil, or_false] at mem
  rcases mem with rfl |
    ((((((rfl | rfl | rfl) | ⟨item, -, rfl | rfl⟩) | ⟨item, -, rfl | rfl⟩) | body) | proxy) | tls)
  · exact options _ (by decide)
  · exact options _ (by decide)
  · exact methods_plain _ (method_valid valid)
  · trivial
  · exact options _ (by decide)
  · trivial
  · exact options _ (by decide)
  · trivial
  · split at body
    · rcases List.mem_cons.mp body with rfl | last
      · exact options _ (by decide)
      · cases List.mem_singleton.mp last
        trivial
    · exact absurd body List.not_mem_nil
  · split at proxy
    · split at proxy
      · exact absurd proxy List.not_mem_nil
      · rcases List.mem_cons.mp proxy with rfl | last
        · exact options _ (by decide)
        · cases List.mem_singleton.mp last
          trivial
    · exact absurd proxy List.not_mem_nil
  · split at tls
    · exact absurd tls List.not_mem_nil
    · cases List.mem_singleton.mp tls
      exact options _ (by decide)

/-- The texts that are written as strings. -/
def quoted (lib : Library) (spec : RequestSpec) : List Text :=
  (arguments lib spec).filterMap fun
    | .bare _ => none
    | .dumped t => some t

/-- A shell reads the command of a request as its arguments exactly where every text that is written as a string is
plain. -/
theorem curl_read (lib : Library) (spec : RequestSpec) (valid : spec.validate lib = []) :
    ∃ written, generate lib spec = .ok written ∧
      (command written = some (argv lib spec) ↔ ∀ t ∈ quoted lib spec, Plain t) := by
  refine ⟨_, if_neg (not_not.mpr valid), ?_⟩
  have words := read_arguments _ (readable_arguments valid)
  have name : 0x3d ∉ text "curl" ∧ text "curl" ∉ reserved := by decide
  have whole : command ([0x20].intercalate (text "curl" :: (arguments lib spec).map Argument.written)) =
      (Argument.bare (text "curl") :: arguments lib spec).mapM Argument.seen := by
    rw [command, ← words, List.map_cons, Argument.written]
    rw [List.map_cons, Argument.written, List.mapM_cons, Argument.seen] at words
    rw [words]
    cases (arguments lib spec).mapM Argument.seen with
    | none => rfl
    | some us => exact if_neg (not_or.mpr name)
  have values : argv lib spec = (Argument.bare (text "curl") :: arguments lib spec).map Argument.value := rfl
  have own : (Argument.bare (text "curl")).seen = some (Argument.bare (text "curl")).value := rfl
  rw [whole, values, mapM_seen, List.forall_mem_cons, and_iff_right own]
  constructor
  · intro all t mem
    obtain ⟨a, arg, its⟩ := List.mem_filterMap.mp mem
    cases a with
    | bare => cases its
    | dumped u =>
      cases its
      exact seen_plain.1 (all _ arg)
  · intro all a arg
    cases a with
    | bare => rfl
    | dumped t => exact seen_plain.2 (all t (List.mem_filterMap.mpr ⟨_, arg, rfl⟩))

def plainParse (url : Text) : Option UrlParts :=
  let scheme := url.takeWhile (· ≠ 0x3a)
  let rest := (url.dropWhile (· ≠ 0x3a)).drop 3
  let host := rest.takeWhile (· ≠ 0x2f)
  if scheme = [] then none else some ⟨scheme, host, rest.dropWhile (· ≠ 0x2f), [], [], host⟩

def plainLibrary : Library where
  casefold t := t.map fun c => if 0x41 ≤ c ∧ c ≤ 0x5a then c + 0x20 else c
  upper t := t.map fun c => if 0x61 ≤ c ∧ c ≤ 0x7a then c - 0x20 else c
  strip t := ((t.dropWhile (· = 0x20)).reverse.dropWhile (· = 0x20)).reverse
  isSpace c := c == 0x20
  urlparse := plainParse
  idna _ := true
  urlsplit url := (plainParse url).getD ⟨[], [], [], [], [], []⟩
  urlunsplit parts := parts.scheme ++ text "://" ++ parts.netloc ++ parts.path ++
    if parts.query = [] then [] else 0x3f :: parts.query
  urlencode d := [0x26].intercalate (d.map fun item => item.1 ++ 0x3d :: item.2)

/-- A request for a page. -/
def pageSpec (url : String) : RequestSpec where
  url := text url
  method := text "get"
  query := []
  headers := [(text "Accept", text "*/*")]
  cookies := []
  body := none
  contentType := none
  connectTimeout := some 10
  readTimeout := some 30
  verifyTls := true
  proxy := none
  userAgent := text "Arenyxa"
  retry := ⟨2, some (3 / 4), some 8, [429, 503], false⟩

theorem curl_read_sample : ∃ written, generate plainLibrary (pageSpec "http://example.com/a?b=$") = .ok written ∧
    (command written = some (argv plainLibrary (pageSpec "http://example.com/a?b=$")) ↔
      ∀ t ∈ quoted plainLibrary (pageSpec "http://example.com/a?b=$"), Plain t) :=
  curl_read _ _ (by decide +kernel)

/-- The shell would put the value of a variable into this URL. -/
theorem curl_expands : ∃ written, generate plainLibrary (pageSpec "http://example.com/a?b=$HOME") = .ok written ∧
    command written ≠ some (argv plainLibrary (pageSpec "http://example.com/a?b=$HOME")) := by
  refine ⟨_, if_neg (not_not.mpr ?_), ?_⟩
  · decide +kernel
  · decide +kernel

end Commands

end Arenyxa.Requests
