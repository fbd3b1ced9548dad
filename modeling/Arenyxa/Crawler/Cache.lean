import Arenyxa.Lib.History
import Mathlib.Data.List.AList
import Mathlib.Data.List.Sort
import Mathlib.Algebra.Order.Ring.Rat

/-! The response cache of the crawler: an entry is two files of a directory that caches share, each replaced
and removed on its own. -/

namespace Arenyxa.Crawler.Cache

/-- The fields of a request that identify it. -/
structure RequestSpec where
  url : String
  method : String
  query : List (String × String)
  headers : List (String × String)
  cookies : List (String × String)
  body : Option String
  deriving DecidableEq

structure FetchResponse where
  url : String
  finalUrl : String
  status : Int
  headers : List (String × String)
  body : List UInt8
  encoding : String
  contentType : String
  redirectChain : List String
  deriving DecidableEq

/-- What the key digests. -/
structure Identity where
  method : String
  url : String
  query : List (String × String)
  headers : List (String × String)
  cookies : List (String × String)
  body : String

/-- Case mappings, and SHA-256 over the JSON text of an identity. -/
structure Library where
  upper : String → String
  casefold : String → String
  digest : Identity → String

inductive CacheMode
  | off
  | read
  | write
  | readWrite
  deriving DecidableEq

structure CachePolicy where
  rooted : Bool
  mode : CacheMode
  ttlSeconds : ℚ
  maxEntries : Int
  maxBodyBytes : Int

def CachePolicy.normalized (p : CachePolicy) : CachePolicy :=
  { p with
    ttlSeconds := max 1 (min p.ttlSeconds (30 * 86400))
    maxEntries := max 1 (min p.maxEntries 100000)
    maxBodyBytes := max 1024 (min p.maxBodyBytes (128 * 1024 * 1024)) }

def CachePolicy.readable (p : CachePolicy) : Bool :=
  p.rooted && (p.mode == .read || p.mode == .readWrite)

def CachePolicy.writable (p : CachePolicy) : Bool :=
  p.rooted && (p.mode == .write || p.mode == .readWrite)

/-- What the metadata file of an entry holds. -/
structure Metadata where
  createdAt : ℚ
  finalUrl : String
  status : Int
  headers : List (String × String)
  encoding : String
  contentType : String
  redirectChain : List String
  deriving DecidableEq

def sensitiveHeaders : List String :=
  ["set-cookie", "authorization", "proxy-authorization", "x-api-key", "x-auth-token", "x-access-token"]

def safeResponseHeaders (lib : Library) (headers : List (String × String)) : List (String × String) :=
  (headers.take 256).map fun (k, v) =>
    (k, if lib.casefold k ∈ sensitiveHeaders then "<redacted>" else String.ofList (v.toList.take 8192))

def metadata (lib : Library) (response : FetchResponse) (createdAt : ℚ) : Metadata where
  createdAt := createdAt
  finalUrl := response.finalUrl
  status := response.status
  headers := safeResponseHeaders lib response.headers
  encoding := response.encoding
  contentType := response.contentType
  redirectChain := response.redirectChain.take 64

/-- `sorted(dict(items).items())` -/
def sortedItems (items : List (String × String)) : List (String × String) :=
  items.insertionSort fun a b => a.1 ≤ b.1

/-- `_key` -/
def key (lib : Library) (spec : RequestSpec) : String :=
  lib.digest ⟨lib.upper spec.method, spec.url, sortedItems spec.query, sortedItems spec.headers,
    sortedItems spec.cookies, spec.body.getD ""⟩

def cacheable (lib : Library) (spec : RequestSpec) : Bool :=
  lib.upper spec.method == "GET" || lib.upper spec.method == "HEAD"

/-- The response that `get` makes of an entry. -/
def respond (spec : RequestSpec) (m : Metadata) (body : List UInt8) : FetchResponse where
  url := spec.url
  finalUrl := if m.finalUrl = "" then spec.url else m.finalUrl
  status := m.status
  headers := m.headers
  body := body
  encoding := if m.encoding = "" then "utf-8" else m.encoding
  contentType := m.contentType
  redirectChain := m.redirectChain.take 64

/-- A call on a cache; `put` reads the clock before it waits for the lock. -/
inductive Op
  | get (spec : RequestSpec)
  | put (spec : RequestSpec) (response : FetchResponse) (createdAt : ℚ)
  | clear
  deriving DecidableEq

inductive Result
  | returned (response : Option FetchResponse)
  | stored (done : Bool)
  | cleared (count : Nat)
  | raised
  | crashed
  deriving DecidableEq

/-- A file of the directory, by its key. -/
inductive Item
  | metaFile (key : String)
  | bodyFile (key : String)
  deriving DecidableEq

/-- What a call does next. -/
inductive Stage
  | waiting
  | replacingBody
  | replacingMeta
  | listing
  | unlinkingMeta (victims : List String)
  | unlinkingBody (victim : String) (victims : List String)
  | readingMeta
  | readingBody (m : Metadata)
  | scanning
  | clearing (items : List Item) (count : Nat)
  | done (result : Result)
  deriving DecidableEq

def Stage.holdsLock : Stage → Bool
  | .waiting => false
  | .done _ => false
  | _ => true

def Stage.active : Stage → Bool
  | .done _ => false
  | _ => true

structure Call where
  cache : Nat
  op : Op
  stage : Stage
  deriving DecidableEq

/-- The calls, and the directory: the metadata files with their times of modification, and the body files. -/
structure Directory where
  calls : List Call
  metas : AList fun _ : String => Metadata × ℚ
  bodies : AList fun _ : String => List UInt8

def empty : Directory := ⟨[], ∅, ∅⟩

/-- What the environment decides at a file operation: whether it succeeds, the clock, and what a listing of
the directory yields. -/
structure Choice where
  ok : Bool := true
  now : ℚ := 0
  listing : List String := []
  items : List Item := []

inductive Move
  | call (cache : Nat) (op : Op)
  | next (i : Nat) (choice : Choice)
  /-- The process of a cache ends between two file operations. -/
  | crash (cache : Nat)

namespace Directory

variable (d : Directory)

def lockFree (cache : Nat) : Bool := d.calls.all fun c => !(c.cache == cache && c.stage.holdsLock)

def set (i : Nat) (call : Call) (stage : Stage) : Directory :=
  { d with calls := d.calls.set i { call with stage := stage } }

def mtime (k : String) : ℚ := ((d.metas.lookup k).map Prod.snd).getD 0

/-- The metadata files beyond the newest ones. -/
def victims (p : CachePolicy) (listing : List String) : List String :=
  (listing.insertionSort fun a b => d.mtime b ≤ d.mtime a).drop p.maxEntries.toNat

/-- The call waits for the lock of its cache. -/
def acquire (i : Nat) (call : Call) (stage : Stage) : Directory :=
  if d.lockFree call.cache then d.set i call stage else d

def nextGet (lib : Library) (p : CachePolicy) (i : Nat) (call : Call) (spec : RequestSpec) (choice : Choice) :
    Directory :=
  match call.stage with
  | .waiting =>
    if !p.readable || !cacheable lib spec then d.set i call (.done (.returned none))
    else d.acquire i call .readingMeta
  | .readingMeta =>
    match d.metas.lookup (key lib spec) with
    | some (m, _) =>
      if choice.ok = false ∨ p.ttlSeconds < choice.now - m.createdAt then d.set i call (.done (.returned none))
      else d.set i call (.readingBody m)
    | none => d.set i call (.done (.returned none))
  | .readingBody m =>
    match d.bodies.lookup (key lib spec) with
    | some body =>
      if choice.ok = false ∨ p.maxBodyBytes < body.length then d.set i call (.done (.returned none))
      else d.set i call (.done (.returned (some (respond spec m body))))
    | none => d.set i call (.done (.returned none))
  | _ => d

def nextPut (lib : Library) (p : CachePolicy) (i : Nat) (call : Call) (spec : RequestSpec)
    (response : FetchResponse) (createdAt : ℚ) (choice : Choice) : Directory :=
  match call.stage with
  | .waiting =>
    if !p.writable || !cacheable lib spec || decide (p.maxBodyBytes < response.body.length) then
      d.set i call (.done (.stored false))
    else d.acquire i call .replacingBody
  | .replacingBody =>
    if choice.ok then
      { d.set i call .replacingMeta with bodies := d.bodies.insert (key lib spec) response.body }
    else d.set i call (.done .raised)
  | .replacingMeta =>
    if choice.ok then
      { d.set i call .listing with
        metas := d.metas.insert (key lib spec) (metadata lib response createdAt, choice.now) }
    else d.set i call (.done .raised)
  | .listing =>
    if choice.ok = false then d.set i call (.done .raised)
    else if choice.listing.Perm d.metas.keys then
      d.set i call (.unlinkingMeta (d.victims p choice.listing))
    else d
  | .unlinkingMeta [] => d.set i call (.done (.stored true))
  | .unlinkingMeta (victim :: victims) =>
    if choice.ok then { d.set i call (.unlinkingBody victim victims) with metas := d.metas.erase victim }
    else d.set i call (.unlinkingMeta victims)
  | .unlinkingBody victim victims =>
    if choice.ok then { d.set i call (.unlinkingMeta victims) with bodies := d.bodies.erase victim }
    else d.set i call (.unlinkingMeta victims)
  | _ => d

/-- Whether a file is there to be removed. -/
def has : Item → Bool
  | .metaFile k => (d.metas.lookup k).isSome
  | .bodyFile k => (d.bodies.lookup k).isSome

def unlink : Item → Directory
  | .metaFile k => { d with metas := d.metas.erase k }
  | .bodyFile k => { d with bodies := d.bodies.erase k }

def nextClear (p : CachePolicy) (i : Nat) (call : Call) (choice : Choice) : Directory :=
  match call.stage with
  | .waiting => if p.rooted then d.acquire i call .scanning else d.set i call (.done (.cleared 0))
  | .scanning => d.set i call (.clearing choice.items 0)
  | .clearing [] count => d.set i call (.done (.cleared count))
  | .clearing (item :: items) count =>
    if choice.ok && d.has item then (d.set i call (.clearing items (count + 1))).unlink item
    else d.set i call (.clearing items count)
  | _ => d

def crash (cache : Nat) : Directory :=
  { d with calls := d.calls.map fun c =>
      if c.cache = cache ∧ c.stage.active then { c with stage := .done .crashed } else c }

def step (lib : Library) (policies : Nat → CachePolicy) (d : Directory) : Move → Directory
  | .call cache op => { d with calls := d.calls ++ [⟨cache, op, .waiting⟩] }
  | .next i choice =>
    match d.calls[i]? with
    | none => d
    | some call =>
      let p := (policies call.cache).normalized
      match call.op with
      | .get spec => d.nextGet lib p i call spec choice
      | .put spec response createdAt => d.nextPut lib p i call spec response createdAt choice
      | .clear => d.nextClear p i call choice
  | .crash cache => d.crash cache

end Directory

end Arenyxa.Crawler.Cache
