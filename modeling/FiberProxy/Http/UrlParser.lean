/-
  FiberProxy.Http.UrlParser

  The target of a request: `parse_url_char` and `http_parser_parse_url`
  (`fiber-server/http_parser.cpp`, strict mode).  `http_parser_execute` sends every
  character of a target through `parse_url_char` and refuses the request at the first
  one that is not allowed; `on_msg_complete` then splits the target with the same
  machine.  A blank ends the target, so it is not allowed inside.

  Of a target that begins with `/`, the path is what comes before the first `?` or `#`,
  and the query what follows a `?` there, up to the next `#` (`splits_of_parseUrl`).  The
  parser notes them as offsets and lengths of 16 bits, so that the parts of a long target
  are cut (`UrlReads.data_path`, `UrlReads.data_query`).
-/

import FiberProxy.Lib.Bytes
import FiberProxy.Lib.Lists
import FiberProxy.Lib.Run
import Mathlib.Logic.Function.Basic

namespace FiberProxy.Http

open Lib

/-! ## Characters -/

/-- `normal_url_char`. -/
def isUrlChar (c : UInt8) : Bool := 33 ≤ c && c ≤ 126 && c != 35 && c != 63

/-- `IS_ALPHA`. -/
def isAlpha (c : UInt8) : Bool := (65 ≤ c && c ≤ 90) || (97 ≤ c && c ≤ 122)

/-- `IS_USERINFO_CHAR`. -/
def isUserinfoChar (c : UInt8) : Bool :=
  isAlpha c || (48 ≤ c && c ≤ 57) || (ascii "-_.!~*'()%;:&=+$,").contains c

/-- What a query can be made of: an extra `?` is allowed. -/
def isQueryChar (c : UInt8) : Bool := isUrlChar c || c == 63

/-! ## The machine -/

/-- The states of a target; `s_dead` is left out, as nothing follows it. -/
inductive UrlState where
  | spacesBeforeUrl
  | schema | schemaSlash | schemaSlashSlash
  | serverStart | server | serverWithAt
  | path
  | queryStringStart | queryString
  | fragmentStart | fragment
deriving DecidableEq, Repr

/-- The characters of a server. -/
def serverChar (ch : UInt8) : Option UrlState :=
  if ch = 47 then some .path
  else if ch = 63 then some .queryStringStart
  else if ch = 64 then some .serverWithAt
  else if isUserinfoChar ch || ch == 91 || ch == 93 then some .server
  else none

/-- `parse_url_char`; `none` is `s_dead`. -/
def parseUrlChar (s : UrlState) (ch : UInt8) : Option UrlState :=
  if ch = 32 ∨ ch = 13 ∨ ch = 10 ∨ ch = 9 ∨ ch = 12 then none
  else
    match s with
    | .spacesBeforeUrl =>
      if ch = 47 ∨ ch = 42 then some .path
      else if isAlpha ch then some .schema
      else none
    | .schema => if isAlpha ch then some .schema else if ch = 58 then some .schemaSlash else none
    | .schemaSlash => if ch = 47 then some .schemaSlashSlash else none
    | .schemaSlashSlash => if ch = 47 then some .serverStart else none
    | .serverWithAt => if ch = 64 then none else serverChar ch
    | .serverStart | .server => serverChar ch
    | .path =>
      if isUrlChar ch then some .path
      else if ch = 63 then some .queryStringStart
      else if ch = 35 then some .fragmentStart
      else none
    | .queryStringStart | .queryString =>
      if isUrlChar ch then some .queryString
      else if ch = 63 then some .queryString
      else if ch = 35 then some .fragmentStart
      else none
    | .fragmentStart =>
      if isUrlChar ch then some .fragment
      else if ch = 63 then some .fragment
      else if ch = 35 then some .fragmentStart
      else none
    | .fragment => if isUrlChar ch || ch == 63 || ch == 35 then some .fragment else none

/-- `http_parser_url_fields`, without the parts of a host. -/
inductive UrlField where
  | schema | host | path | query | fragment
deriving DecidableEq, Repr

/-- The field that a character belongs to, by the state behind it; delimiters belong to
    none. -/
def UrlState.field? : UrlState → Option UrlField
  | .schema => some .schema
  | .server | .serverWithAt => some .host
  | .path => some .path
  | .queryString => some .query
  | .fragment => some .fragment
  | .spacesBeforeUrl | .schemaSlash | .schemaSlashSlash | .serverStart | .queryStringStart
  | .fragmentStart => none

/-- `http_parser_url` while it is filled.  `field` is `old_uf`, `pos` is `p - buf`; `off` and
    `len` are read only where `fieldSet` says so. -/
structure UrlParse where
  state : UrlState := .spacesBeforeUrl
  field : Option UrlField := none
  pos : Nat := 0
  fieldSet : UrlField → Bool := fun _ => false
  off : UrlField → UInt16 := fun _ => 0
  len : UrlField → UInt16 := fun _ => 0

namespace UrlParse

/-- The next character, in state `s`, goes into its field.  Offset and length are `uint16_t`
    and wrap. -/
def put (p : UrlParse) (s : UrlState) : UrlParse :=
  match s.field? with
  | none => { p with state := s, pos := p.pos + 1 }
  | some uf =>
    if p.field = some uf then
      { p with
        state := s
        pos := p.pos + 1
        len := Function.update p.len uf (p.len uf + 1) }
    else
      { state := s
        field := some uf
        pos := p.pos + 1
        fieldSet := Function.update p.fieldSet uf true
        off := Function.update p.off uf (UInt16.ofNat p.pos)
        len := Function.update p.len uf 1 }

def feed (p : UrlParse) (ch : UInt8) : Option UrlParse := (parseUrlChar p.state ch).map p.put

/-- A field of the target, as `on_msg_complete` cuts it out. -/
def data (p : UrlParse) (url : Bytes) (uf : UrlField) : Bytes :=
  if p.fieldSet uf then (url.drop (p.off uf).toNat).take (p.len uf).toNat else []

end UrlParse

/-- `http_parser_parse_url` of a target that is not for CONNECT, up to its parts of a
    host. -/
def parseUrl (url : Bytes) : Option UrlParse := run UrlParse.feed {} url

/-! ## Transitions -/

section Transitions

variable {s s' : UrlState} {c : UInt8}

/-- The characters that are refused at once are no URL characters. -/
theorem not_blank_of_isQueryChar (h : isQueryChar c = true) :
    ¬ (c = 32 ∨ c = 13 ∨ c = 10 ∨ c = 9 ∨ c = 12) := by
  rintro (rfl | rfl | rfl | rfl | rfl) <;> simp [isQueryChar, isUrlChar] at h

theorem isQueryChar_of_isUrlChar (h : isUrlChar c = true) : isQueryChar c = true := by
  simp [isQueryChar, h]

theorem parseUrlChar_path (h : parseUrlChar .path c = some s) :
    (isUrlChar c = true ∧ s = .path) ∨ (c = 63 ∧ s = .queryStringStart) ∨
      (c = 35 ∧ s = .fragmentStart) := by
  simp only [parseUrlChar] at h
  split_ifs at h <;> simp_all

theorem parseUrlChar_query (hs : s = .queryStringStart ∨ s = .queryString)
    (h : parseUrlChar s c = some s') :
    (isQueryChar c = true ∧ s' = .queryString) ∨ (c = 35 ∧ s' = .fragmentStart) := by
  rcases hs with rfl | rfl <;> simp only [parseUrlChar] at h <;> split_ifs at h <;>
    simp_all [isQueryChar]

theorem parseUrlChar_fragment (hs : s = .fragmentStart ∨ s = .fragment)
    (h : parseUrlChar s c = some s') : s' = .fragmentStart ∨ s' = .fragment := by
  rcases hs with rfl | rfl <;> simp only [parseUrlChar] at h <;> split_ifs at h <;> simp_all

theorem parseUrlChar_path_of_isUrlChar (h : isUrlChar c = true) :
    parseUrlChar .path c = some .path := by
  rw [parseUrlChar, if_neg (not_blank_of_isQueryChar (isQueryChar_of_isUrlChar h))]
  simp [h]

theorem parseUrlChar_query_of_isQueryChar (hs : s = .queryStringStart ∨ s = .queryString)
    (h : isQueryChar c = true) : parseUrlChar s c = some .queryString := by
  have hblank := not_blank_of_isQueryChar h
  rcases hs with rfl | rfl <;> rw [parseUrlChar, if_neg hblank] <;>
    by_cases hc : isUrlChar c = true <;> simp_all [isQueryChar]

theorem state_put (p : UrlParse) (s : UrlState) : (p.put s).state = s := by
  unfold UrlParse.put
  split
  · rfl
  · split <;> rfl

end Transitions

/-! ## Path and query -/

/-- What has been read, starting with a `/`: a path, a query, and where they are noted. -/
structure UrlReads (w path query : Bytes) (p : UrlParse) : Prop where
  pathChars : ∀ c ∈ path, isUrlChar c = true
  queryChars : ∀ c ∈ query, isQueryChar c = true
  pos : p.pos = w.length
  pathRange : p.fieldSet .path = true ∧ p.off .path = 0 ∧ p.len .path = UInt16.ofNat path.length
  queryRange :
    if query = [] then p.fieldSet .query = false
    else p.fieldSet .query = true ∧ p.off .query = UInt16.ofNat (path.length + 1) ∧
      p.len .query = UInt16.ofNat query.length
  whole :
    match p.state with
    | .path => p.field = some .path ∧ w = path ∧ query = []
    | .queryStringStart => p.field = some .path ∧ w = path ++ [63] ∧ query = []
    | .queryString => p.field = some .query ∧ w = path ++ 63 :: query ∧ query ≠ []
    | .fragmentStart | .fragment =>
      ∃ mid f, w = path ++ (mid ++ 35 :: f) ∧ (mid = [] ∧ query = [] ∨ mid = 63 :: query)
    | _ => False

section UrlReads

variable {w path query : Bytes} {p p' : UrlParse} {c : UInt8}

theorem urlReads_slash : UrlReads [47] [47] [] (({} : UrlParse).put .path) where
  pathChars := List.forall_mem_singleton.mpr rfl
  queryChars := by simp
  pos := rfl
  pathRange := ⟨rfl, rfl, rfl⟩
  queryRange := rfl
  whole := ⟨rfl, rfl, rfl⟩

/-- A character of the path. -/
theorem UrlReads.put_path (h : UrlReads w path query p) (hstate : p.state = .path)
    (hc : isUrlChar c = true) : UrlReads (w ++ [c]) (path ++ [c]) query (p.put .path) := by
  obtain ⟨hpath, hquery, hpos, ⟨hset, hoff, hlen⟩, hrange, hwhole⟩ := h
  rw [hstate] at hwhole
  obtain ⟨hfield, hw, rfl⟩ := hwhole
  have hput : p.put .path = { p with
      state := .path, pos := p.pos + 1, len := Function.update p.len .path (p.len .path + 1) } := by
    simp [UrlParse.put, UrlState.field?, hfield]
  rw [hput]
  constructor
  case pathChars => exact forall_mem_snoc hpath hc
  case queryChars => exact hquery
  case pos => simp [hpos]
  case pathRange => exact ⟨hset, hoff, by simp [hlen]⟩
  case queryRange => simpa using hrange
  case whole => exact ⟨hfield, by rw [hw], rfl⟩

theorem UrlReads.put_queryStringStart (h : UrlReads w path query p) (hstate : p.state = .path) :
    UrlReads (w ++ [63]) path query (p.put .queryStringStart) := by
  obtain ⟨hpath, hquery, hpos, hrange, hrange', hwhole⟩ := h
  rw [hstate] at hwhole
  obtain ⟨hfield, hw, hnil⟩ := hwhole
  exact ⟨hpath, hquery, by simp [UrlParse.put, UrlState.field?, hpos], hrange, hrange', hfield,
    by rw [hw], hnil⟩

/-- The first character of the query. -/
theorem UrlReads.put_queryFirst (h : UrlReads w path query p)
    (hstate : p.state = .queryStringStart) (hc : isQueryChar c = true) :
    UrlReads (w ++ [c]) path [c] (p.put .queryString) := by
  obtain ⟨hpath, -, hpos, ⟨hset, hoff, hlen⟩, -, hwhole⟩ := h
  rw [hstate] at hwhole
  obtain ⟨hfield, hw, -⟩ := hwhole
  have hlength : p.pos = path.length + 1 := by simp [hpos, hw]
  have hput : p.put .queryString =
      { state := .queryString
        field := some .query
        pos := p.pos + 1
        fieldSet := Function.update p.fieldSet .query true
        off := Function.update p.off .query (UInt16.ofNat p.pos)
        len := Function.update p.len .query 1 } := by
    simp [UrlParse.put, UrlState.field?, hfield]
  rw [hput]
  constructor
  case pathChars => exact hpath
  case queryChars => simpa using hc
  case pos => simp [hpos]
  case pathRange => exact ⟨by simpa using hset, by simpa using hoff, by simpa using hlen⟩
  case queryRange => exact ⟨by simp, by simp [hlength], by simp⟩
  case whole => exact ⟨rfl, by simp [hw], List.cons_ne_nil _ _⟩

/-- A further character of the query. -/
theorem UrlReads.put_queryString (h : UrlReads w path query p) (hstate : p.state = .queryString)
    (hc : isQueryChar c = true) : UrlReads (w ++ [c]) path (query ++ [c]) (p.put .queryString) := by
  obtain ⟨hpath, hquery, hpos, hrange, hrange', hwhole⟩ := h
  rw [hstate] at hwhole
  obtain ⟨hfield, hw, hne⟩ := hwhole
  rw [if_neg hne] at hrange'
  obtain ⟨hset, hoff, hlen⟩ := hrange'
  have hput : p.put .queryString = { p with
      state := .queryString, pos := p.pos + 1
      len := Function.update p.len .query (p.len .query + 1) } := by
    simp [UrlParse.put, UrlState.field?, hfield]
  rw [hput]
  constructor
  case pathChars => exact hpath
  case queryChars => exact forall_mem_snoc hquery hc
  case pos => simp [hpos]
  case pathRange => simpa using hrange
  case queryRange =>
    rw [if_neg (by simp)]
    exact ⟨hset, hoff, by simp [hlen]⟩
  case whole => exact ⟨hfield, by simp [hw], by simp⟩

/-- A `#` after the path or the query. -/
theorem UrlReads.put_hash (h : UrlReads w path query p)
    (hstate : p.state = .path ∨ p.state = .queryStringStart ∨ p.state = .queryString) :
    UrlReads (w ++ [35]) path query (p.put .fragmentStart) := by
  obtain ⟨hpath, hquery, hpos, hrange, hrange', hwhole⟩ := h
  refine ⟨hpath, hquery, by simp [UrlParse.put, UrlState.field?, hpos], hrange, hrange', ?_⟩
  rcases hstate with hstate | hstate | hstate <;> rw [hstate] at hwhole
  · obtain ⟨-, hw, hnil⟩ := hwhole
    exact ⟨[], [], by rw [hw]; rfl, Or.inl ⟨rfl, hnil⟩⟩
  · obtain ⟨-, hw, hnil⟩ := hwhole
    exact ⟨[63], [], by simp [hw], Or.inr (by rw [hnil])⟩
  · obtain ⟨-, hw, -⟩ := hwhole
    exact ⟨63 :: query, [], by simp [hw], Or.inr rfl⟩

/-- What follows a `#` is in neither. -/
theorem UrlReads.put_fragment {s : UrlState} (h : UrlReads w path query p)
    (hstate : p.state = .fragmentStart ∨ p.state = .fragment)
    (hs : s = .fragmentStart ∨ s = .fragment) : UrlReads (w ++ [c]) path query (p.put s) := by
  obtain ⟨hpath, hquery, hpos, hrange, hrange', hwhole⟩ := h
  have hrest : ∃ mid f, w = path ++ (mid ++ 35 :: f) ∧
      (mid = [] ∧ query = [] ∨ mid = 63 :: query) := by
    rcases hstate with hstate | hstate <;> rwa [hstate] at hwhole
  obtain ⟨mid, f, hw, hmid⟩ := hrest
  have hall : ∃ mid f, w ++ [c] = path ++ (mid ++ 35 :: f) ∧
      (mid = [] ∧ query = [] ∨ mid = 63 :: query) := ⟨mid, f ++ [c], by simp [hw], hmid⟩
  -- the fragment has its own range
  have hsame : (p.put s).pos = p.pos + 1 ∧ (p.put s).state = s ∧
      ∀ uf, uf ≠ .fragment → (p.put s).fieldSet uf = p.fieldSet uf ∧
        (p.put s).off uf = p.off uf ∧ (p.put s).len uf = p.len uf := by
    rcases hs with rfl | rfl <;> simp only [UrlParse.put, UrlState.field?]
    · simp
    · split <;> simp +contextual
  obtain ⟨hpos', hstate', hfields⟩ := hsame
  obtain ⟨hs₁, ho₁, hl₁⟩ := hfields .path (by decide)
  obtain ⟨hs₂, ho₂, hl₂⟩ := hfields .query (by decide)
  refine ⟨hpath, hquery, by simp [hpos', hpos], by rwa [hs₁, ho₁, hl₁], by rwa [hs₂, ho₂, hl₂], ?_⟩
  rw [hstate']
  rcases hs with rfl | rfl <;> exact hall

theorem urlReads_feed (h : UrlReads w path query p) (hfeed : p.feed c = some p') :
    ∃ path' query', UrlReads (w ++ [c]) path' query' p' := by
  obtain ⟨s, hs, rfl⟩ := Option.map_eq_some_iff.mp hfeed
  have hwhole := h.whole
  cases hstate : p.state with
  | path =>
    rw [hstate] at hs
    rcases parseUrlChar_path hs with ⟨hc, rfl⟩ | ⟨rfl, rfl⟩ | ⟨rfl, rfl⟩
    · exact ⟨_, _, h.put_path hstate hc⟩
    · exact ⟨_, _, h.put_queryStringStart hstate⟩
    · exact ⟨_, _, h.put_hash (Or.inl hstate)⟩
  | queryStringStart =>
    rcases parseUrlChar_query (Or.inl hstate) hs with ⟨hc, rfl⟩ | ⟨rfl, rfl⟩
    · exact ⟨_, _, h.put_queryFirst hstate hc⟩
    · exact ⟨_, _, h.put_hash (by simp [hstate])⟩
  | queryString =>
    rcases parseUrlChar_query (Or.inr hstate) hs with ⟨hc, rfl⟩ | ⟨rfl, rfl⟩
    · exact ⟨_, _, h.put_queryString hstate hc⟩
    · exact ⟨_, _, h.put_hash (by simp [hstate])⟩
  | fragmentStart | fragment =>
    exact ⟨_, _, h.put_fragment (by simp [hstate]) (parseUrlChar_fragment (by simp [hstate]) hs)⟩
  | _ =>
    rw [hstate] at hwhole
    exact hwhole.elim

/-- What follows the first `/` of a target. -/
theorem parseUrl_slash (t : Bytes) :
    parseUrl (47 :: t) = run UrlParse.feed (({} : UrlParse).put .path) t := rfl

theorem urlReads_parseUrl {t : Bytes} (h : parseUrl (47 :: t) = some p) :
    ∃ path query, UrlReads (47 :: t) path query p := by
  rw [parseUrl_slash] at h
  refine run_induction (P := fun t p => ∃ path query, UrlReads (47 :: t) path query p)
    ⟨_, _, urlReads_slash⟩ ?_ h
  intro t p c p' _ hreads hfeed
  obtain ⟨path, query, hreads⟩ := hreads
  exact urlReads_feed hreads hfeed

/-! ## What `on_msg_complete` cuts out -/

/-- The path is cut at a multiple of 2^16. -/
theorem UrlReads.data_path (h : UrlReads w path query p) (url : Bytes) :
    p.data url .path = url.take (path.length % 65536) := by
  obtain ⟨hset, hoff, hlen⟩ := h.pathRange
  simp [UrlParse.data, hset, hoff, hlen]

/-- The query begins and is cut at a multiple of 2^16. -/
theorem UrlReads.data_query (h : UrlReads w path query p) (url : Bytes) :
    p.data url .query = (url.drop ((path.length + 1) % 65536)).take (query.length % 65536) := by
  have hrange := h.queryRange
  by_cases hnil : query = []
  · rw [if_pos hnil] at hrange
    simp [UrlParse.data, hrange, hnil]
  · rw [if_neg hnil] at hrange
    obtain ⟨hset, hoff, hlen⟩ := hrange
    simp [UrlParse.data, hset, hoff, hlen]

end UrlReads

/-- **A target in parts.** Of a target that begins with `/` and is accepted: the path, then
    nothing or the query behind a `?`, then nothing or a fragment. -/
theorem splits_of_parseUrl {t : Bytes} {p : UrlParse} (h : parseUrl (47 :: t) = some p) :
    ∃ path query mid frag, UrlReads (47 :: t) path query p ∧ 47 :: t = path ++ (mid ++ frag) ∧
      (mid = [] ∧ query = [] ∨ mid = 63 :: query) ∧ (frag = [] ∨ frag.head? = some 35) := by
  obtain ⟨path, query, hreads⟩ := urlReads_parseUrl h
  have hwhole := hreads.whole
  cases hstate : p.state with
  | path =>
    rw [hstate] at hwhole
    exact ⟨path, query, [], [], hreads, by simp [hwhole.2.1], Or.inl ⟨rfl, hwhole.2.2⟩,
      Or.inl rfl⟩
  | queryStringStart =>
    rw [hstate] at hwhole
    exact ⟨path, query, [63], [], hreads, by simp [hwhole.2.1], Or.inr (by rw [hwhole.2.2]),
      Or.inl rfl⟩
  | queryString =>
    rw [hstate] at hwhole
    exact ⟨path, query, 63 :: query, [], hreads, by simp [hwhole.2.1], Or.inr rfl, Or.inl rfl⟩
  | fragmentStart | fragment =>
    rw [hstate] at hwhole
    obtain ⟨mid, f, hw, hmid⟩ := hwhole
    exact ⟨path, query, mid, 35 :: f, hreads, hw, hmid, Or.inr rfl⟩
  | _ =>
    rw [hstate] at hwhole
    exact hwhole.elim

/-! ## Targets that are accepted -/

/-- Characters that keep the machine in one state. -/
theorem run_path {w : Bytes} {t path : Bytes} {p : UrlParse} (h : UrlReads w path [] p)
    (hstate : p.state = .path) (ht : ∀ c ∈ t, isUrlChar c = true) :
    ∃ p', run UrlParse.feed p t = some p' ∧ p'.state = .path ∧
      UrlReads (w ++ t) (path ++ t) [] p' := by
  induction t generalizing p w path with
  | nil => exact ⟨p, rfl, hstate, by simpa using h⟩
  | cons c t ih =>
    have hc := ht c List.mem_cons_self
    have hfeed : p.feed c = some (p.put .path) := by
      rw [UrlParse.feed, hstate, parseUrlChar_path_of_isUrlChar hc]
      rfl
    have hput := h.put_path hstate hc
    obtain ⟨p', hrun, hstate', hreads⟩ := ih hput (state_put p .path)
      fun d hd => ht d (List.mem_cons_of_mem c hd)
    refine ⟨p', ?_, hstate', by simpa using hreads⟩
    rw [run_cons, hfeed]
    exact hrun

theorem run_query {w path query t : Bytes} {p : UrlParse} (h : UrlReads w path query p)
    (hstate : p.state = .queryString) (ht : ∀ c ∈ t, isQueryChar c = true) :
    ∃ p', run UrlParse.feed p t = some p' ∧ UrlReads (w ++ t) path (query ++ t) p' := by
  induction t generalizing p w query with
  | nil => exact ⟨p, rfl, by simpa using h⟩
  | cons c t ih =>
    have hc := ht c List.mem_cons_self
    have hfeed : p.feed c = some (p.put .queryString) := by
      rw [UrlParse.feed, parseUrlChar_query_of_isQueryChar (Or.inr hstate) hc]
      rfl
    have hput := h.put_queryString hstate hc
    obtain ⟨p', hrun, hreads⟩ := ih hput (state_put p .queryString)
      fun d hd => ht d (List.mem_cons_of_mem c hd)
    refine ⟨p', ?_, by simpa using hreads⟩
    rw [run_cons, hfeed]
    exact hrun

theorem question_notMem_of_isUrlChar {t : Bytes} (ht : ∀ c ∈ t, isUrlChar c = true) : 63 ∉ t := by
  intro h
  exact absurd (ht 63 h) (by decide)

/-- A path alone. -/
theorem parseUrl_path {t : Bytes} (ht : ∀ c ∈ t, isUrlChar c = true) :
    ∃ p, parseUrl (47 :: t) = some p ∧ UrlReads (47 :: t) (47 :: t) [] p := by
  obtain ⟨p, hrun, -, hreads⟩ := run_path urlReads_slash (state_put _ _) ht
  exact ⟨p, hrun, hreads⟩

/-- A path and a query. -/
theorem parseUrl_query {t q : Bytes} (ht : ∀ c ∈ t, isUrlChar c = true)
    (hq : ∀ c ∈ q, isQueryChar c = true) :
    ∃ p, parseUrl (47 :: (t ++ 63 :: q)) = some p ∧
      UrlReads (47 :: (t ++ 63 :: q)) (47 :: t) q p := by
  obtain ⟨p₁, hrun₁, hstate₁, hreads₁⟩ := run_path urlReads_slash (state_put _ _) ht
  have hstart := hreads₁.put_queryStringStart hstate₁
  have hfeed : p₁.feed 63 = some (p₁.put .queryStringStart) := by
    rw [UrlParse.feed, hstate₁]
    rfl
  rw [parseUrl_slash, run_append, hrun₁, Option.bind_some, run_cons, hfeed, Option.bind_some]
  cases q with
  | nil => exact ⟨_, rfl, by simpa using hstart⟩
  | cons c q =>
    have hc := hq c List.mem_cons_self
    have hfirst := hstart.put_queryFirst (state_put _ _) hc
    have hfeed' : (p₁.put .queryStringStart).feed c =
        some ((p₁.put .queryStringStart).put .queryString) := by
      rw [UrlParse.feed, parseUrlChar_query_of_isQueryChar (Or.inl (state_put _ _)) hc]
      rfl
    obtain ⟨p, hrun, hreads⟩ := run_query hfirst (state_put _ _)
      fun d hd => hq d (List.mem_cons_of_mem c hd)
    refine ⟨p, ?_, by simpa using hreads⟩
    rw [run_cons, hfeed']
    exact hrun

/-- The parts of a target below 2^16 bytes are cut out whole. -/
theorem UrlReads.data_of_short {w path query : Bytes} {p : UrlParse}
    (h : UrlReads w path query p) (rest : Bytes)
    (hrest : w = path ++ rest) (hquery : query = [] ∨ ∃ frag, rest = 63 :: (query ++ frag))
    (hshort : w.length < 65536) : p.data w .path = path ∧ p.data w .query = query := by
  subst hrest
  rw [List.length_append] at hshort
  rw [h.data_path, h.data_query]
  constructor
  · rw [Nat.mod_eq_of_lt (by omega), List.take_left]
  · rcases hquery with rfl | ⟨frag, rfl⟩
    · simp
    · simp only [List.length_cons, List.length_append] at hshort
      rw [Nat.mod_eq_of_lt (by omega), Nat.mod_eq_of_lt (by omega), ← List.drop_drop,
        List.drop_left, List.drop_one, List.tail_cons, List.take_left]

end FiberProxy.Http
