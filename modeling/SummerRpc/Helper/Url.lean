import SummerRpc.Lib.MultiMap
import SummerRpc.Lib.Percent
import SummerRpc.Transport.Strings
import Mathlib.Data.List.DropRight
import Mathlib.Data.List.Permutation

/-! # URLs

`helper/url.py`, and the functions of `urllib` and `urlparse` the registry takes URLs apart
with. Strings are bytes.

* `quote`, `unquote`, `urlparse`, `parseQuery`, `URLBuilder`;
* `unquote_quote`: a URL that has been quoted is unquoted;
* `urlparse_clean`: which bytes do not occur in the parts of a URL;
* `urlparse_built`: the parts of a URL with a network location, a path and a query.
-/

namespace SummerRpc

/-! ## `urllib` -/

/-- Letters, digits and `"_.-"` -/
def alwaysSafe (b : UInt8) : Bool := isDigit b || isAlpha b || b = 95 || b = 46 || b = 45

/-- `urllib.quote(s, safe="")` -/
def quote (s : List UInt8) : List UInt8 := Percent.quote alwaysSafe s

/-- `urllib.unquote(s)` -/
def unquote (s : List UInt8) : List UInt8 := Percent.unquote s

theorem unquote_quote (s : List UInt8) : unquote (quote s) = s := Percent.unquote_quote rfl s

/-- No `'/'` occurs in what has been quoted. -/
theorem slash_notMem_quote (s : List UInt8) : 47 ∉ quote s :=
  Percent.notMem_quote rfl (by decide) rfl s

/-! ## `urlparse` -/

/-- `urlparse.ParseResult` -/
structure ParseResult where
  scheme : List UInt8
  netloc : List UInt8
  path : List UInt8
  params : List UInt8
  query : List UInt8
  fragment : List UInt8
deriving DecidableEq, Repr

/-- `s.split(separator, 1)`, with an empty second part where there is none. -/
def cut (separator : UInt8) (s : List UInt8) : List UInt8 × List UInt8 :=
  (splitOnce separator s).getD (s, [])

/-- The schemes whose last path segment may have parameters. -/
def usesParams : List (List UInt8) :=
  [[], bytes "ftp", bytes "hdl", bytes "prospero", bytes "http", bytes "https", bytes "shttp",
    bytes "rtsp", bytes "rtspu", bytes "sip", bytes "sips", bytes "mms", bytes "sftp", bytes "tel"]

/-- The bytes of a scheme: letters, digits and `"+-."` -/
def isSchemeChar (b : UInt8) : Bool := isAlpha b || isDigit b || b = 43 || b = 45 || b = 46

/-- The scheme, and the URL without it. What precedes the first `':'` is not one where
only a port number follows, unless it is `"http"`. -/
def splitScheme (url : List UInt8) : List UInt8 × List UInt8 :=
  match splitOnce 58 url with
  | none => ([], url)
  | some (front, rest) =>
    if front = bytes "http" ∨ (front ≠ [] ∧ front.all isSchemeChar = true ∧
        (rest = [] ∨ ¬ rest.all isDigit = true)) then (front.map toLower, rest)
    else ([], url)

/-- The bytes that end the network location: `"/?#"` -/
def endsNetloc (b : UInt8) : Bool := b = 47 || b = 63 || b = 35

/-- One of the brackets is there, and the other is not. -/
def InvalidIPv6 (netloc : List UInt8) : Prop :=
  (91 ∈ netloc ∧ 93 ∉ netloc) ∨ (93 ∈ netloc ∧ 91 ∉ netloc)

instance (netloc : List UInt8) : Decidable (InvalidIPv6 netloc) :=
  inferInstanceAs (Decidable (_ ∨ _))

/-- The network location, and the URL without it. -/
def splitNetloc (url : List UInt8) : Except Exc (List UInt8 × List UInt8) :=
  if url.take 2 = [47, 47] then
    let netloc := (url.drop 2).takeWhile fun b => !endsNetloc b
    if InvalidIPv6 netloc then .error { cls := .valueError, msg := "Invalid IPv6 URL" }
    else .ok (netloc, (url.drop 2).dropWhile fun b => !endsNetloc b)
  else .ok ([], url)

/-- A byte other than `'/'`. -/
def inSegment (b : UInt8) : Bool := b ≠ 47

/-- The segment after the last `'/'`. -/
def lastSegment (path : List UInt8) : List UInt8 := path.rtakeWhile inSegment

/-- The path, and the parameters of its last segment. -/
def splitParams (path : List UInt8) : List UInt8 × List UInt8 :=
  let (segment, params) := cut 59 (lastSegment path)
  (path.rdropWhile inSegment ++ segment, params)

/-- `urlparse.urlparse(url)` -/
def urlparse (url : List UInt8) : Except Exc ParseResult := do
  let (scheme, url) := splitScheme url
  let (netloc, url) ← splitNetloc url
  let (url, fragment) := cut 35 url
  let (url, query) := cut 63 url
  let (path, params) := if usesParams.contains scheme then splitParams url else (url, [])
  return { scheme, netloc, path, params, query, fragment }

/-! ## `helper/url.py` -/

/-- `parse_query(qr)` -/
def parseQuery (qr : List UInt8) : MultiMap (List UInt8) (List UInt8) :=
  MultiMap.addAll [] ((qr.splitOn 38).filterMap (splitOnce 61))

/-- The order in which a dictionary is iterated: any. -/
structure HashOrder where
  iteritems : MultiMap (List UInt8) (List UInt8) → MultiMap (List UInt8) (List UInt8)
  perm : ∀ m, (iteritems m).Perm m

/-- `URLBuilder` -/
structure URLBuilder where
  scheme : Option (List UInt8) := none
  host : Option (List UInt8) := none
  port : Option ℕ := none
  path : List UInt8 := []
  queryArguments : MultiMap (List UInt8) (List UInt8) := []
  fragment : Option (List UInt8) := none

namespace URLBuilder

def withScheme (scheme : List UInt8) (builder : URLBuilder) : URLBuilder :=
  { builder with scheme := some scheme }

def withHost (host : List UInt8) (builder : URLBuilder) : URLBuilder :=
  { builder with host := some host }

def withPort (port : ℤ) (builder : URLBuilder) : Except Exc URLBuilder :=
  if port < 0 then .error { cls := .valueError, msg := "port should not be less than 0" }
  else .ok { builder with port := some port.toNat }

def withPath (path : List UInt8) (builder : URLBuilder) : Except Exc URLBuilder :=
  if path ≠ [] ∧ path.head? ≠ some 47 then
    .error { cls := .valueError, msg := "path should start with '/' if it is not empty" }
  else .ok { builder with path := path }

def withArgument (k v : List UInt8) (builder : URLBuilder) : URLBuilder :=
  { builder with queryArguments := MultiMap.add k v builder.queryArguments }

def withFragment (fragment : List UInt8) (builder : URLBuilder) : URLBuilder :=
  { builder with fragment := some fragment }

theorem withPort_natCast (port : ℕ) (builder : URLBuilder) :
    builder.withPort port = .ok { builder with port := some port } :=
  if_neg (Int.not_lt.mpr (Int.natCast_nonneg port))

theorem withPath_slash (path : List UInt8) (builder : URLBuilder) :
    builder.withPath (47 :: path) = .ok { builder with path := 47 :: path } :=
  if_neg fun h => h.2 rfl

/-- `"&".join(query_arguments)` -/
def joinArguments (order : HashOrder) (queryArguments : MultiMap (List UInt8) (List UInt8)) :
    List UInt8 :=
  [38].intercalate ((order.iteritems queryArguments).flatMap fun argument =>
    argument.2.map fun v => argument.1 ++ 61 :: v)

/-- `build(quote_url)` -/
def build (order : HashOrder) (builder : URLBuilder) (quoteUrl : Bool) : List UInt8 :=
  let start :=
    match builder.scheme with
    | none => bytes "//"
    | some scheme => scheme ++ bytes "://"
  let location :=
    match builder.host, builder.port with
    | none, _ => []
    | some host, none => host
    | some host, some port => host ++ 58 :: decimal port
  let query := if builder.queryArguments.isEmpty then []
    else 63 :: joinArguments order builder.queryArguments
  let fragment :=
    match builder.fragment with
    | none | some [] => []
    | some fragment => 35 :: fragment
  let url := start ++ location ++ builder.path ++ query ++ fragment
  if quoteUrl then quote url else url

end URLBuilder

namespace URLBuilder

/-- Two arguments are joined in one order or the other. -/
theorem joinArguments_two (order : HashOrder) (k v k' v' : List UInt8) :
    joinArguments order [(k, [v]), (k', [v'])] =
        [38].intercalate [k ++ 61 :: v, k' ++ 61 :: v'] ∨
      joinArguments order [(k, [v]), (k', [v'])] =
        [38].intercalate [k' ++ 61 :: v', k ++ 61 :: v] := by
  unfold joinArguments
  rcases List.perm_pair.mp (order.perm [(k, [v]), (k', [v'])]) with heq | heq
  · left
    rw [heq]
    rfl
  · right
    rw [heq]
    rfl

end URLBuilder

/-! ## The parts of a URL -/

theorem notMem_cut (separator : UInt8) (s : List UInt8) : separator ∉ (cut separator s).1 := by
  unfold cut
  induction s with
  | nil => exact List.not_mem_nil
  | cons b s ih =>
      rw [splitOnce]
      split
      · exact List.not_mem_nil
      · next hne =>
          cases h : splitOnce separator s with
          | none =>
              rw [h] at ih
              exact List.not_mem_cons_of_ne_of_not_mem (fun heq => hne heq.symm) ih
          | some p =>
              rw [h] at ih
              exact List.not_mem_cons_of_ne_of_not_mem (fun heq => hne heq.symm) ih

theorem mem_of_mem_cut {separator b : UInt8} {s : List UInt8} (h : b ∈ (cut separator s).1) :
    b ∈ s := by
  unfold cut at h
  induction s with
  | nil => exact h
  | cons c s ih =>
      rw [splitOnce] at h
      split at h
      · cases h
      · cases hsplit : splitOnce separator s with
        | none =>
            rw [hsplit] at h
            exact h
        | some p =>
            rw [hsplit] at h ih
            rcases List.mem_cons.mp h with rfl | hp
            · exact List.mem_cons_self
            · exact List.mem_cons_of_mem _ (ih hp)

theorem cut_of_notMem {separator : UInt8} {s : List UInt8} (h : separator ∉ s) :
    cut separator s = (s, []) := by
  have hnone : splitOnce separator s = none := by
    induction s with
    | nil => rfl
    | cons b s ih =>
        rw [List.mem_cons, not_or] at h
        rw [splitOnce, if_neg fun heq => h.1 heq.symm, ih h.2]
        rfl
  rw [cut, hnone]
  rfl

theorem cut_append {separator : UInt8} {s : List UInt8} (h : separator ∉ s) (rest : List UInt8) :
    cut separator (s ++ separator :: rest) = (s, rest) := by
  rw [cut, splitOnce_cons h]
  rfl

theorem cut_of_splitOnce {separator : UInt8} {s : List UInt8} {p : List UInt8 × List UInt8}
    (h : splitOnce separator s = some p) : cut separator s = p := by
  rw [cut, h]
  rfl

/-- What follows the last `'/'` is a segment, whatever precedes it. -/
theorem lastSegment_append {segment : List UInt8} (h : 47 ∉ segment) (path : List UInt8) :
    lastSegment (path.rdropWhile inSegment ++ segment) = segment := by
  unfold lastSegment
  induction segment using List.reverseRecOn with
  | nil =>
      rw [List.append_nil, List.rtakeWhile_eq_nil_iff]
      exact fun hl => List.rdropWhile_last_not _ _ hl
  | append_singleton segment b ih =>
      rw [List.mem_append, List.mem_singleton, not_or] at h
      have hb : inSegment b = true := decide_eq_true (Ne.symm h.2)
      rw [← List.append_assoc, List.rtakeWhile_concat_pos _ _ _ hb, ih h.1]

/-- The path without the parameters. -/
theorem splitParams_clean (path : List UInt8) :
    59 ∉ lastSegment (splitParams path).1 ∧ ∀ b ∈ (splitParams path).1, b ∈ path := by
  have hslash : 47 ∉ (cut 59 (lastSegment path)).1 := by
    intro hmem
    have hne := List.mem_rtakeWhile_imp (mem_of_mem_cut hmem)
    exact absurd hne (by decide)
  constructor
  · show 59 ∉ lastSegment (_ ++ (cut 59 (lastSegment path)).1)
    rw [lastSegment_append hslash]
    exact notMem_cut 59 _
  · intro b hb
    rcases List.mem_append.mp hb with hdir | hsegment
    · exact (List.rdropWhile_prefix inSegment path).subset hdir
    · exact (List.rtakeWhile_suffix inSegment path).subset (mem_of_mem_cut hsegment)

/-- Where there are no parameters nothing is split off. -/
theorem splitParams_of_notMem {path : List UInt8} (h : 59 ∉ lastSegment path) :
    splitParams path = (path, []) := by
  unfold splitParams
  rw [cut_of_notMem h]
  exact congrArg (·, []) List.rdropWhile_append_rtakeWhile

theorem splitNetloc_clean {url netloc rest : List UInt8}
    (h : splitNetloc url = .ok (netloc, rest)) : ∀ b ∈ netloc, endsNetloc b = false := by
  unfold splitNetloc at h
  intro b hb
  split at h
  · dsimp only at h
    split at h
    · cases h
    · cases h
      simpa using List.mem_takeWhile_imp hb
  · cases h
    cases hb

/-- Which bytes do not occur in the parts of a URL. -/
structure ParseResult.Clean (url : ParseResult) : Prop where
  path : 63 ∉ url.path ∧ 35 ∉ url.path
  params : url.scheme ∈ usesParams → 59 ∉ lastSegment url.path
  netloc : ∀ b ∈ url.netloc, endsNetloc b = false

theorem urlparse_clean {url : List UInt8} {result : ParseResult}
    (h : urlparse url = .ok result) : result.Clean := by
  unfold urlparse at h
  cases hnetloc : splitNetloc (splitScheme url).2 with
  | error ex =>
      simp only [hnetloc] at h
      cases h
  | ok p =>
      obtain ⟨netloc, rest⟩ := p
      simp only [hnetloc] at h
      have hquery : 63 ∉ (cut 63 (cut 35 rest).1).1 := notMem_cut 63 _
      have hfragment : 35 ∉ (cut 63 (cut 35 rest).1).1 := fun hmem =>
        notMem_cut 35 rest (mem_of_mem_cut hmem)
      obtain ⟨hparams, hsub⟩ := splitParams_clean (cut 63 (cut 35 rest).1).1
      cases h
      refine ⟨?_, ?_, splitNetloc_clean hnetloc⟩
      · -- with parameters or without them
        show 63 ∉ (if usesParams.contains _ then _ else _ : List UInt8 × List UInt8).1 ∧ _
        split
        · exact ⟨fun hmem => hquery (hsub _ hmem), fun hmem => hfragment (hsub _ hmem)⟩
        · exact ⟨hquery, hfragment⟩
      · intro hscheme
        show 59 ∉ lastSegment (if usesParams.contains _ then _ else _ : List UInt8 × List UInt8).1
        rw [if_pos (List.contains_iff_mem.mpr hscheme)]
        exact hparams

/-- A lower case scheme, and more than a port number after it. -/
theorem splitScheme_eq {scheme rest : List UInt8} (hne : scheme ≠ [])
    (hchars : scheme.all isSchemeChar = true) (hlower : scheme.map toLower = scheme)
    (hrest : ¬ rest.all isDigit = true) : splitScheme (scheme ++ 58 :: rest) = (scheme, rest) := by
  have hcolon : 58 ∉ scheme := by
    intro hmem
    exact absurd (List.all_eq_true.mp hchars _ hmem) (by decide)
  rw [splitScheme, splitOnce_cons hcolon]
  show (if _ then (scheme.map toLower, rest) else _) = _
  rw [if_pos (Or.inr ⟨hne, hchars, Or.inr hrest⟩), hlower]

theorem splitNetloc_eq {netloc : List UInt8} (h : ∀ b ∈ netloc, endsNetloc b = false)
    (path : List UInt8) :
    splitNetloc (47 :: 47 :: (netloc ++ 47 :: path)) =
      if InvalidIPv6 netloc then .error { cls := .valueError, msg := "Invalid IPv6 URL" }
      else .ok (netloc, 47 :: path) := by
  have hall : ∀ b ∈ netloc, (!endsNetloc b) = true := fun b hb => by rw [h b hb]; rfl
  have htake : (netloc ++ 47 :: path).takeWhile (fun b => !endsNetloc b) = netloc := by
    rw [List.takeWhile_append_of_pos hall, List.takeWhile_cons_of_neg (by decide), List.append_nil]
  have hdrop : (netloc ++ 47 :: path).dropWhile (fun b => !endsNetloc b) = 47 :: path := by
    rw [List.dropWhile_append_of_pos hall, List.dropWhile_cons_of_neg (by decide)]
  have hslashes : (47 :: 47 :: (netloc ++ 47 :: path)).take 2 = [47, 47] := rfl
  unfold splitNetloc
  rw [if_pos hslashes]
  simp only [List.drop_succ_cons, List.drop_zero, htake, hdrop]

/-- The parts of a URL that has a network location, a path and a query. -/
theorem urlparse_built {scheme netloc path query : List UInt8} (hne : scheme ≠ [])
    (hchars : scheme.all isSchemeChar = true) (hlower : scheme.map toLower = scheme)
    (hnetloc : ∀ b ∈ netloc, endsNetloc b = false) (hmark : 63 ∉ path)
    (hhash : 35 ∉ path ∧ 35 ∉ query)
    (hparams : scheme ∈ usesParams → 59 ∉ lastSegment (47 :: path)) :
    urlparse (scheme ++ 58 :: 47 :: 47 :: (netloc ++ 47 :: (path ++ 63 :: query))) =
      if InvalidIPv6 netloc then .error { cls := .valueError, msg := "Invalid IPv6 URL" }
      else .ok { scheme, netloc, path := 47 :: path, params := [], query, fragment := [] } := by
  have hdigits : ¬ (47 :: 47 :: (netloc ++ 47 :: (path ++ 63 :: query))).all isDigit = true := by
    rw [List.all_cons]
    simp [isDigit]
  have hfragment : cut 35 (47 :: (path ++ 63 :: query)) = (47 :: (path ++ 63 :: query), []) := by
    apply cut_of_notMem
    simp only [List.mem_cons, List.mem_append, not_or]
    exact ⟨by decide, hhash.1, by decide, hhash.2⟩
  have hquery : cut 63 (47 :: (path ++ 63 :: query)) = (47 :: path, query) :=
    cut_append (s := 47 :: path) (by
      rw [List.mem_cons, not_or]
      exact ⟨by decide, hmark⟩) query
  have hpath : (if usesParams.contains scheme then splitParams (47 :: path)
      else (47 :: path, [])) = (47 :: path, []) := by
    split
    · next hscheme =>
        exact splitParams_of_notMem (hparams (List.contains_iff_mem.mp hscheme))
    · rfl
  unfold urlparse
  rw [splitScheme_eq hne hchars hlower hdigits]
  simp only [splitNetloc_eq hnetloc]
  split
  · rfl
  · show Except.ok _ = Except.ok _
    simp only [hfragment, hquery, hpath]

/-! ## Queries -/

/-- A query of two arguments. -/
theorem parseQuery_two {k v k' v' : List UInt8} (hk : 61 ∉ k) (hk' : 61 ∉ k')
    (hsep : 38 ∉ k ∧ 38 ∉ v) (hsep' : 38 ∉ k' ∧ 38 ∉ v') :
    parseQuery ([38].intercalate [k ++ 61 :: v, k' ++ 61 :: v']) =
      MultiMap.addAll [] [(k, v), (k', v')] := by
  have hsplit : List.splitOn 38 ([38].intercalate [k ++ 61 :: v, k' ++ 61 :: v']) =
      [k ++ 61 :: v, k' ++ 61 :: v'] := by
    apply List.splitOn_intercalate
    · intro item hitem
      rcases List.mem_pair.mp hitem with rfl | rfl
      · rw [List.mem_append, List.mem_cons, not_or, not_or]
        exact ⟨hsep.1, by decide, hsep.2⟩
      · rw [List.mem_append, List.mem_cons, not_or, not_or]
        exact ⟨hsep'.1, by decide, hsep'.2⟩
    · exact List.cons_ne_nil _ _
  rw [parseQuery, hsplit]
  simp only [List.filterMap_cons, splitOnce_cons hk, splitOnce_cons hk', List.filterMap_nil]

/-- The bytes of such a query. -/
theorem mem_two {b : UInt8} {k v k' v' : List UInt8}
    (h : b ∈ [38].intercalate [k ++ 61 :: v, k' ++ 61 :: v']) :
    b = 38 ∨ b = 61 ∨ b ∈ k ∨ b ∈ v ∨ b ∈ k' ∨ b ∈ v' := by
  have happend : [38].intercalate [k ++ 61 :: v, k' ++ 61 :: v'] =
      (k ++ 61 :: v) ++ 38 :: (k' ++ 61 :: v') := by
    simp [List.intercalate]
  rw [happend] at h
  simp only [List.mem_append, List.mem_cons] at h
  tauto

end SummerRpc
