import ZeroNat.Proxy.Http

/-!
# What the origin reads

The head that is rewritten for the origin is a sequence of lines: the request line, `Host`,
the headers that are passed on and `Connection: close`.  A recipient that ends a line at a
carriage return with a line feed reads just these lines, and so does one that ends a line at
any line feed unless a header that is passed on has one inside.  The framing of the body is
passed on unless a `Connection` header names it.
-/

namespace ZeroNat.Proxy

open Config (isWhitespace trim splitWhitespace lines of_mem_splitWhitespace)

/-! ### Lines -/

/-- No line ends inside. -/
def OneLine (l : List Char) : Prop :=
  ¬ crlf <:+: l

theorem oneLine_cons {c : Char} {l : List Char} (h : OneLine (c :: l)) :
  OneLine l ∧ (c = '\r' → l.head? ≠ some '\n')
  := by
  rw [OneLine, List.infix_cons_iff, not_or] at h
  refine ⟨h.2, ?_⟩
  rintro rfl hhead
  obtain ⟨rest, rfl⟩ := List.head?_eq_some_iff.mp hhead
  exact h.1 ⟨rest, rfl⟩

theorem oneLine_of_not_mem {l : List Char} (h : '\n' ∉ l) :
  OneLine l
  := by
  intro hinside
  exact h (hinside.subset (by simp [crlf]))

/-- A line is split off at its end. -/
theorem splitCrlf_append {l : List Char} (h : OneLine l) (rest : List Char) :
  splitCrlf (l ++ crlf ++ rest) = l :: splitCrlf rest
  := by
  induction l with
  | nil => rfl
  | cons c l ih =>
      obtain ⟨hl, hhead⟩ := oneLine_cons h
      have hnext : ∀ rest', c = '\r' → l ++ crlf ++ rest = '\n' :: rest' → False := by
        intro rest' hc heq
        cases l with
        | nil => simp [crlf] at heq
        | cons d l =>
            obtain ⟨rfl, -⟩ := List.cons.inj heq
            exact hhead hc rfl
      rw [List.cons_append, List.cons_append, splitCrlf.eq_3 _ _ hnext, ih hl]

theorem splitCrlf_ne_nil (text : List Char) :
  splitCrlf text ≠ []
  := by
  fun_induction splitCrlf text with
  | case1 => simp
  | case2 => simp
  | case3 => simp
  | case4 => simp

/-- The first part begins as the text does. -/
theorem head_of_splitCrlf {text l : List Char} {ls : List (List Char)} {c : Char}
    (h : splitCrlf text = (c :: l) :: ls) :
  text.head? = some c
  := by
  revert h
  fun_cases splitCrlf text with
  | case1 => simp
  | case2 => simp
  | case3 d rest _ hrest =>
      intro h
      simp_all
  | case4 d rest _ l' ls' hrest =>
      intro h
      simp_all

/-- The parts have no end of a line inside. -/
theorem oneLine_of_mem_splitCrlf {text l : List Char} (h : l ∈ splitCrlf text) :
  OneLine l
  := by
  have hnil : OneLine [] := oneLine_of_not_mem List.not_mem_nil
  fun_induction splitCrlf text generalizing l with
  | case1 =>
      rw [List.mem_singleton.mp h]
      exact hnil
  | case2 rest ih =>
      obtain rfl | h := List.mem_cons.mp h
      · exact hnil
      · exact ih h
  | case3 c rest _ hrest => exact absurd hrest (splitCrlf_ne_nil rest)
  | case4 c rest hnext l' ls hrest ih =>
      obtain rfl | h := List.mem_cons.mp h
      · intro hinside
        obtain hfront | hinside := List.infix_cons_iff.mp hinside
        · obtain ⟨rfl, hfeed⟩ := List.cons_prefix_cons.mp hfront
          obtain ⟨l'', rfl⟩ := hfeed
          obtain ⟨rest', rfl⟩ := List.head?_eq_some_iff.mp (head_of_splitCrlf hrest)
          exact hnext rest' rfl rfl
        · exact ih (by rw [hrest]; exact List.mem_cons_self) hinside
      · exact ih (by rw [hrest]; exact List.mem_cons_of_mem _ h)

/-- Lines that are written are split again. -/
theorem splitCrlf_flatMap {ls : List (List Char)} (h : ∀ l ∈ ls, OneLine l) :
  splitCrlf (ls.flatMap (· ++ crlf)) = ls ++ [[]]
  := by
  induction ls with
  | nil => rfl
  | cons l ls ih =>
      rw [List.flatMap_cons, splitCrlf_append (h l List.mem_cons_self),
        ih fun l' hl' => h l' (List.mem_cons_of_mem l hl'), List.cons_append]

/-- A line without a line feed is read as it was written. -/
theorem lines_append_crlf {l : List Char} (h : '\n' ∉ l) (rest : List Char) :
  lines (l ++ crlf ++ rest) = l :: lines rest
  := by
  induction l with
  | nil => rfl
  | cons c l ih =>
      rw [List.mem_cons, not_or] at h
      obtain ⟨hc, hl⟩ := h
      have hnext : ∀ rest', c = '\r' → l ++ crlf ++ rest = '\n' :: rest' → False := by
        intro rest' _ heq
        cases l with
        | nil => simp [crlf] at heq
        | cons d l =>
            obtain ⟨rfl, -⟩ := List.cons.inj heq
            exact hl List.mem_cons_self
      rw [List.cons_append, List.cons_append, lines, ih hl]
      · exact Ne.symm hc
      · exact hnext

theorem lines_flatMap {ls : List (List Char)} (h : ∀ l ∈ ls, '\n' ∉ l) :
  lines (ls.flatMap (· ++ crlf)) = ls
  := by
  induction ls with
  | nil => rfl
  | cons l ls ih =>
      rw [List.flatMap_cons, lines_append_crlf (h l List.mem_cons_self),
        ih fun l' hl' => h l' (List.mem_cons_of_mem l hl')]

theorem not_mem_of_mem_lines {text l : List Char} (h : l ∈ lines text) :
  '\n' ∉ l
  := by
  fun_induction lines text generalizing l with
  | case1 => cases h
  | case2 rest ih =>
      obtain rfl | h := List.mem_cons.mp h
      · exact List.not_mem_nil
      · exact ih h
  | case3 rest ih =>
      obtain rfl | h := List.mem_cons.mp h
      · exact List.not_mem_nil
      · exact ih h
  | case4 c rest hfeed _ hrest ih =>
      rw [List.mem_singleton.mp h, List.mem_singleton]
      exact Ne.symm hfeed
  | case5 c rest hfeed _ l' ls hrest ih =>
      rw [hrest] at ih
      obtain rfl | h := List.mem_cons.mp h
      · rw [List.mem_cons, not_or]
        exact ⟨Ne.symm hfeed, ih List.mem_cons_self⟩
      · exact ih (List.mem_cons_of_mem _ h)

/-! ### Words -/

/-- A word is a part of a line. -/
theorem feed_not_mem_of_mem_splitWhitespace {line w : List Char} (h : w ∈ splitWhitespace line) :
  '\n' ∉ w
  := by
  intro hfeed
  have hblank := (of_mem_splitWhitespace h).2 '\n' hfeed
  cases hblank

/-! ### The rewritten head -/

/-- The line of the host. -/
def hostLine (authority : List Char) : List Char :=
  "Host: ".toList ++ authority

def closeLine : List Char := "Connection: close".toList

/-- The lines of the rewritten head before the empty one. -/
def rewrittenLines (method path version authority : List Char) (headers : List (List Char)) :
    List (List Char) :=
  (method ++ ' ' :: path ++ ' ' :: version) :: hostLine authority ::
    (headers.filter (passedOn headers) ++ [closeLine])

theorem foldl_lines (ls : List (List Char)) (out : List Char) :
  ls.foldl (fun out l => out ++ l ++ crlf) out = out ++ ls.flatMap (· ++ crlf)
  := by
  induction ls generalizing out with
  | nil => simp
  | cons l ls ih =>
      rw [List.foldl_cons, ih, List.flatMap_cons]
      simp only [List.append_assoc]

theorem rewrite_eq (method path version authority : List Char) (headers : List (List Char)) :
  rewrite method path version authority headers =
    (rewrittenLines method path version authority headers ++ [[]]).flatMap (· ++ crlf)
  := by
  unfold rewrite rewrittenLines hostLine closeLine
  dsimp only
  rw [foldl_lines]
  generalize headers.filter (passedOn headers) = kept
  -- the texts of the fixed lines do not matter
  generalize "Connection: close".toList = close
  generalize "Host: ".toList = host
  simp

theorem headerName_of_headerNamed {l : List Char} {name : String} (h : headerNamed l name = true) :
  headerName l = some (lower name.toList)
  := by
  rw [headerNamed] at h
  rw [headerName]
  split at h
  · rename_i n v hsplit
    rw [hsplit, Option.map_some]
    rw [eqIgnoreCase, decide_eq_true_iff] at h
    exact congrArg some h
  · cases h

theorem headerNamed_iff {l : List Char} {name : String} :
  headerNamed l name = true ↔ headerName l = some (lower name.toList)
  := by
  refine ⟨headerName_of_headerNamed, ?_⟩
  intro h
  rw [headerName] at h
  obtain ⟨⟨n, v⟩, hsplit, hname⟩ := Option.map_eq_some_iff.mp h
  rw [headerNamed, hsplit]
  exact decide_eq_true hname

theorem passedOn_iff {headers : List (List Char)} {l : List Char} :
  passedOn headers l = true ↔
    ∃ name, headerName l = some name ∧ name ∉ stripHeaders ∧ name ∉ connNamed headers
  := by
  rw [passedOn]
  split
  · rename_i name hname
    simp [hname]
  · rename_i hname
    simp [hname]

theorem parse_utf8 (base64 : List Char → Option (List UInt8)) (text : String) :
  parse base64 (utf8 text) = parseText base64 text.toList
  := by
  rw [parse, (fromUTF8?_eq_some_iff _ text).mpr rfl]

/-- What a head that is passed on consists of. -/
theorem of_parse_forward {base64 : List Char → Option (List UInt8)} {head : List UInt8}
    {req : Request} {out : List Char} {text : String} (h : parse base64 head = .ok req)
    (hkind : req.kind = .forward out) (htext : head = utf8 text) :
  ∃ method uri more rest,
    splitWhitespace ((splitCrlf text.toList).headD []) = method :: uri :: more ∧
    stripHttpScheme uri = some rest ∧
    splitHostPort (authorityOf rest) (some 80) = some req.target ∧
    out = rewrite method (pathOf rest) (more.headD "HTTP/1.1".toList) (authorityOf rest)
      (headerLines text.toList)
  := by
  rw [htext, parse_utf8, parseText] at h
  split at h
  · cases h
  · dsimp only at h
    split at h
    · cases h
    · cases h
    · rename_i method uri more hwords
      split at h
      · split at h
        · cases h
        · obtain rfl := Except.ok.inj h
          cases hkind
      · split at h
        · cases h
        · rename_i rest hscheme
          split at h
          · cases h
          · rename_i target htarget
            split at h
            · cases h
            · obtain rfl := Except.ok.inj h
              exact ⟨method, uri, more, rest, hwords, hscheme, htarget,
                (Kind.forward.inj hkind).symm⟩

section Lines

variable {text : List Char} {l method uri rest : List Char} {more : List (List Char)}

theorem oneLine_of_mem_headerLines (h : l ∈ headerLines text) :
  OneLine l
  := oneLine_of_mem_splitCrlf (List.mem_of_mem_tail ((List.takeWhile_subset _) h))

theorem ne_nil_of_mem_headerLines (h : l ∈ headerLines text) :
  l ≠ []
  := by
  simpa using List.mem_takeWhile_imp h

theorem subset_of_rtakeWhile (p : Char → Bool) (l : List Char) :
  l.rtakeWhile p ⊆ l
  := (List.rtakeWhile_suffix p l).subset

theorem feed_not_mem_authorityOf (h : '\n' ∉ rest) :
  '\n' ∉ authorityOf rest
  := by
  intro hfeed
  exact h (List.takeWhile_subset _ (subset_of_rtakeWhile _ _ hfeed))

theorem feed_not_mem_pathOf (h : '\n' ∉ rest) :
  '\n' ∉ pathOf rest
  := by
  have htail : '\n' ∉ rest.dropWhile fun c => !endsAuthority c :=
    fun hfeed => h ((List.dropWhile_suffix _).subset hfeed)
  rw [pathOf]
  split
  · decide
  · rename_i tail heq
    rwa [heq] at htail
  · rw [List.mem_cons, not_or]
    exact ⟨by decide, htail⟩

theorem feed_not_mem_of_stripHttpScheme (huri : '\n' ∉ uri)
    (hscheme : stripHttpScheme uri = some rest) :
  '\n' ∉ rest
  := by
  rw [stripHttpScheme] at hscheme
  split at hscheme
  · rw [← Option.some.inj hscheme]
    exact fun hfeed => huri (List.mem_of_mem_drop hfeed)
  · cases hscheme

/-- The lines that are made up have no line feed. -/
theorem feed_not_mem_made
    (hwords : splitWhitespace ((splitCrlf text).headD []) = method :: uri :: more)
    (hscheme : stripHttpScheme uri = some rest) :
  '\n' ∉ method ++ ' ' :: pathOf rest ++ ' ' :: more.headD "HTTP/1.1".toList ∧
    '\n' ∉ hostLine (authorityOf rest)
  := by
  have hword : ∀ w ∈ method :: uri :: more, '\n' ∉ w := by
    intro w hw
    rw [← hwords] at hw
    exact feed_not_mem_of_mem_splitWhitespace hw
  have hrest : '\n' ∉ rest := feed_not_mem_of_stripHttpScheme (hword uri (by simp)) hscheme
  have hversion : '\n' ∉ more.headD "HTTP/1.1".toList := by
    cases more with
    | nil => decide
    | cons version more => exact hword version (by simp)
  have hmethod := hword method List.mem_cons_self
  have hpath := feed_not_mem_pathOf hrest
  have hauthority := feed_not_mem_authorityOf hrest
  refine ⟨?_, ?_⟩
  · simp only [List.mem_append, List.mem_cons, not_or]
    exact ⟨⟨hmethod, by decide, hpath⟩, by decide, hversion⟩
  · intro hfeed
    obtain hfeed | hfeed := List.mem_append.mp hfeed
    · exact absurd hfeed (by decide)
    · exact hauthority hfeed

/-- A recipient that reads lines as the proxy does. -/
theorem headerLines_rewrite
    (hwords : splitWhitespace ((splitCrlf text).headD []) = method :: uri :: more)
    (hscheme : stripHttpScheme uri = some rest) :
  headerLines (rewrite method (pathOf rest) (more.headD "HTTP/1.1".toList) (authorityOf rest)
      (headerLines text)) =
    hostLine (authorityOf rest) ::
      ((headerLines text).filter (passedOn (headerLines text)) ++ [closeLine])
  := by
  obtain ⟨hfirst, hhost⟩ := feed_not_mem_made hwords hscheme
  have hkept : ∀ l ∈ (headerLines text).filter (passedOn (headerLines text)),
      OneLine l ∧ l ≠ [] := by
    intro l hl
    have hmem := (List.mem_filter.mp hl).1
    exact ⟨oneLine_of_mem_headerLines hmem, ne_nil_of_mem_headerLines hmem⟩
  have hclose : '\n' ∉ closeLine := by
    decide
  have hlines : splitCrlf (rewrite method (pathOf rest) (more.headD "HTTP/1.1".toList)
      (authorityOf rest) (headerLines text)) =
      (rewrittenLines method (pathOf rest) (more.headD "HTTP/1.1".toList) (authorityOf rest)
        (headerLines text) ++ [[]]) ++ [[]] := by
    rw [rewrite_eq]
    apply splitCrlf_flatMap
    intro l hl
    rw [rewrittenLines, List.mem_append, List.mem_cons, List.mem_cons, List.mem_append,
      List.mem_singleton, List.mem_singleton] at hl
    obtain (rfl | rfl | hl | rfl) | rfl := hl
    · exact oneLine_of_not_mem hfirst
    · exact oneLine_of_not_mem hhost
    · exact (hkept l hl).1
    · exact oneLine_of_not_mem hclose
    · exact oneLine_of_not_mem List.not_mem_nil
  rw [headerLines, hlines, rewrittenLines, List.cons_append, List.cons_append, List.tail_cons]
  generalize hls : hostLine (authorityOf rest) ::
    ((headerLines text).filter (passedOn (headerLines text)) ++ [closeLine]) = ls
  have hfull : ∀ l ∈ ls, decide (l ≠ []) = true := by
    rw [← hls]
    intro l hl
    rw [List.mem_cons, List.mem_append, List.mem_singleton] at hl
    obtain rfl | hl | rfl := hl
    · rfl
    · simpa using (hkept l hl).2
    · rfl
  rw [List.append_assoc, List.takeWhile_append_of_pos hfull]
  simp

end Lines

/-! ### The framing of the body -/

theorem headerName_append {n v : List Char} (h : ':' ∉ n) :
  headerName (n ++ ':' :: v) = some (lower (trim n))
  := by
  have hmem : ':' ∈ n ++ ':' :: v := List.mem_append_right _ List.mem_cons_self
  have hfront : (n ++ ':' :: v).takeWhile (· ≠ ':') = n := by
    rw [List.takeWhile_append_of_pos]
    · simp
    · intro c hc
      simp only [ne_eq, decide_not, Bool.not_eq_true', decide_eq_false_iff_not]
      rintro rfl
      exact h hc
  rw [headerName, splitOnce, if_pos hmem, Option.map_some, hfront]

theorem headerName_hostLine (authority : List Char) :
  headerName (hostLine authority) = some "host".toList
  := by
  have hline : hostLine authority = "Host".toList ++ ':' :: (' ' :: authority) := rfl
  have hname : lower (trim "Host".toList) = "host".toList := by
    decide
  rw [hline, headerName_append (by decide), hname]

theorem headerName_closeLine :
  headerName closeLine = some "connection".toList
  := by
  have hline : closeLine = "Connection".toList ++ ':' :: " close".toList := rfl
  have hname : lower (trim "Connection".toList) = "connection".toList := by
    decide
  rw [hline, headerName_append (by decide), hname]

/-- A header that frames the body. -/
def isFraming (line : List Char) : Bool :=
  headerNamed line "content-length" || headerNamed line "transfer-encoding"

/-- The headers of a head that frame the body. -/
def framingLines (text : List Char) : List (List Char) :=
  (headerLines text).filter isFraming

theorem isFraming_iff {l : List Char} :
  isFraming l = true ↔ headerName l = some "content-length".toList ∨
    headerName l = some "transfer-encoding".toList
  := by
  rw [isFraming, Bool.or_eq_true, headerNamed_iff, headerNamed_iff]
  rfl

theorem passedOn_of_isFraming {headers : List (List Char)} {l : List Char}
    (h : isFraming l = true) :
  passedOn headers l = true ↔ ∀ name, headerName l = some name → name ∉ connNamed headers
  := by
  have hstrip : ∀ name, headerName l = some name → name ∉ stripHeaders := by
    intro name hname
    obtain heq | heq := isFraming_iff.mp h
    · rw [← Option.some.inj (heq.symm.trans hname)]
      decide
    · rw [← Option.some.inj (heq.symm.trans hname)]
      decide
  rw [passedOn_iff]
  constructor
  · rintro ⟨name, hname, -, hconn⟩ name' hname'
    rwa [← Option.some.inj (hname.symm.trans hname')]
  · intro hconn
    obtain heq | heq := isFraming_iff.mp h
    · exact ⟨_, heq, hstrip _ heq, hconn _ heq⟩
    · exact ⟨_, heq, hstrip _ heq, hconn _ heq⟩

/-- The origin gets the framing of the request just when no `Connection` header names a header
that frames the body. -/
theorem framing_kept_iff {base64 : List Char → Option (List UInt8)} {head : List UInt8}
    {req : Request} {out : List Char} {text : String} (h : parse base64 head = .ok req)
    (hkind : req.kind = .forward out) (htext : head = utf8 text) :
  framingLines out = framingLines text.toList ↔
    ∀ l ∈ framingLines text.toList, ∀ name, headerName l = some name →
      name ∉ connNamed (headerLines text.toList)
  := by
  obtain ⟨method, uri, more, rest, hwords, hscheme, -, rfl⟩ := of_parse_forward h hkind htext
  have hhost : isFraming (hostLine (authorityOf rest)) = false := by
    rw [← Bool.not_eq_true, isFraming_iff, headerName_hostLine]
    decide
  have hclose : isFraming closeLine = false := by
    rw [← Bool.not_eq_true, isFraming_iff, headerName_closeLine]
    decide
  have hout : framingLines (rewrite method (pathOf rest) (more.headD "HTTP/1.1".toList)
      (authorityOf rest) (headerLines text.toList)) =
      (framingLines text.toList).filter (passedOn (headerLines text.toList)) := by
    rw [framingLines, headerLines_rewrite hwords hscheme, List.filter_cons, hhost,
      if_neg Bool.false_ne_true, List.filter_append, List.filter_singleton, hclose, cond_false,
      List.append_nil, List.filter_comm]
    rfl
  rw [hout, List.filter_eq_self]
  constructor
  · intro hall l hl
    exact (passedOn_of_isFraming (List.mem_filter.mp hl).2).mp (hall l hl)
  · intro hall l hl
    exact (passedOn_of_isFraming (List.mem_filter.mp hl).2).mpr (hall l hl)

/-- A request with a body of five bytes. -/
def post : String :=
  "POST http://h HTTP/1.1\r\nContent-Length: 5\r\n\r\n"

theorem framing_kept_post :
  ∃ req out, parse (fun _ => none) (utf8 post) = .ok req ∧ req.kind = .forward out ∧
    framingLines out = framingLines post.toList
  := by
  have hreq : ∃ req, parseText (fun _ => none) post.toList = .ok req ∧
      ∃ out, req.kind = .forward out := ⟨_, rfl, _, rfl⟩
  obtain ⟨req, hreq, out, hout⟩ := hreq
  rw [← parse_utf8] at hreq
  refine ⟨req, out, hreq, hout, ?_⟩
  refine (framing_kept_iff hreq hout rfl).mpr ?_
  have hnamed : connNamed (headerLines post.toList) = [] := by
    decide
  rw [hnamed]
  exact fun _ _ _ _ => List.not_mem_nil

/-- The same request with a header that names the length. -/
def postNamed : String :=
  "POST http://h HTTP/1.1\r\nConnection: content-length\r\nContent-Length: 5\r\n\r\n"

/-- The body of the request is sent without its length. -/
theorem framing_dropped :
  ∃ req out, parse (fun _ => none) (utf8 postNamed) = .ok req ∧ req.kind = .forward out ∧
    framingLines postNamed.toList = ["Content-Length: 5".toList] ∧ framingLines out = []
  := by
  rw [parse_utf8]
  exact ⟨_, _, rfl, rfl, by decide, by decide⟩

/-! ### What reaches the origin -/

/-- The fields of a head, for a recipient that ends a line at any line feed. -/
def fieldLines (head : List Char) : List (List Char) :=
  (lines head).tail.takeWhile (· ≠ [])

/-- The headers of a request that are for the origin. -/
def endToEnd (headers : List (List Char)) : List (List Char) :=
  headers.filter fun l => passedOn headers l

/-- A rewritten head that has what the origin is to get and nothing else, for a recipient that
ends a line at any line feed. -/
structure Sanitized (text : List Char) (target : List Char × UInt16) (head : List Char) :
    Prop where
  /-- The request line has the method and the path of the request, and the host is the one that
  is dialed, without a user. -/
  request : ∃ method uri more rest,
    splitWhitespace ((splitCrlf text).headD []) = method :: uri :: more ∧
    stripHttpScheme uri = some rest ∧
    (lines head).head? =
      some (method ++ ' ' :: pathOf rest ++ ' ' :: more.headD "HTTP/1.1".toList) ∧
    '@' ∉ authorityOf rest ∧ splitHostPort (authorityOf rest) (some 80) = some target ∧
    (fieldLines head).filter (headerNamed · "host") = [hostLine (authorityOf rest)]
  close : (fieldLines head).filter (headerNamed · "connection") = [closeLine]
  /-- No other field has a name that is stripped. -/
  stripped : ∀ l ∈ fieldLines head, headerNamed l "host" = false →
    headerNamed l "connection" = false → ∀ name, headerName l = some name →
      name ∉ stripHeaders ∧ name ∉ connNamed (headerLines text)
  rest : (fieldLines head).filter
      (fun l => !headerNamed l "host" && !headerNamed l "connection") = endToEnd (headerLines text)
  /-- The head ends at its only empty line. -/
  ends : ∃ ls, lines head = ls ++ [[]] ∧ [] ∉ ls

theorem not_mem_afterLast (stop : Char) (l : List Char) :
  stop ∉ afterLast stop l
  := by
  intro hmem
  have hne := List.mem_rtakeWhile_imp hmem
  simp at hne

section Fields

variable {headers : List (List Char)} {l : List Char}

theorem headerNamed_of_passedOn (h : passedOn headers l = true) :
  headerNamed l "host" = false ∧ headerNamed l "connection" = false
  := by
  obtain ⟨name, hname, hstrip, -⟩ := passedOn_iff.mp h
  constructor
  · rw [← Bool.not_eq_true, headerNamed_iff, hname]
    intro heq
    apply hstrip
    rw [Option.some.inj heq]
    decide
  · rw [← Bool.not_eq_true, headerNamed_iff, hname]
    intro heq
    apply hstrip
    rw [Option.some.inj heq]
    decide

theorem headerNamed_hostLine (authority : List Char) :
  headerNamed (hostLine authority) "host" = true ∧
    headerNamed (hostLine authority) "connection" = false
  := by
  rw [← Bool.not_eq_true, headerNamed_iff, headerNamed_iff, headerName_hostLine]
  decide

theorem headerNamed_closeLine :
  headerNamed closeLine "host" = false ∧ headerNamed closeLine "connection" = true
  := by
  rw [← Bool.not_eq_true, headerNamed_iff, headerNamed_iff, headerName_closeLine]
  decide

theorem filter_made (p : List Char → Bool) (authority : List Char) (b : Bool)
    (hkept : ∀ l ∈ endToEnd headers, p l = b) :
  (hostLine authority :: (endToEnd headers ++ [closeLine])).filter p =
    (if p (hostLine authority) then [hostLine authority] else []) ++
      ((if b then endToEnd headers else []) ++ if p closeLine then [closeLine] else [])
  := by
  have hmiddle : (endToEnd headers).filter p = if b then endToEnd headers else [] := by
    cases b with
    | true =>
        rw [if_pos rfl]
        exact List.filter_eq_self.mpr hkept
    | false =>
        rw [if_neg Bool.false_ne_true, List.filter_eq_nil_iff]
        intro l hl
        rw [hkept l hl]
        exact Bool.false_ne_true
  rw [List.filter_cons, List.filter_append, hmiddle, List.filter_singleton]
  split
  · simp
  · simp

end Fields

/-- The lines of a rewritten head, when no header that is passed on has a line feed inside. -/
theorem lines_rewrite {text method uri rest : List Char} {more : List (List Char)}
    (hwords : splitWhitespace ((splitCrlf text).headD []) = method :: uri :: more)
    (hscheme : stripHttpScheme uri = some rest)
    (hfeed : ∀ l ∈ endToEnd (headerLines text), '\n' ∉ l) :
  lines (rewrite method (pathOf rest) (more.headD "HTTP/1.1".toList) (authorityOf rest)
      (headerLines text)) =
    ((method ++ ' ' :: pathOf rest ++ ' ' :: more.headD "HTTP/1.1".toList) ::
      (hostLine (authorityOf rest) :: (endToEnd (headerLines text) ++ [closeLine]))) ++ [[]]
  := by
  obtain ⟨hfirst, hhost⟩ := feed_not_mem_made hwords hscheme
  have hclose : '\n' ∉ closeLine := by
    decide
  rw [rewrite_eq]
  apply lines_flatMap
  intro l hl
  rw [rewrittenLines, List.mem_append, List.mem_cons, List.mem_cons, List.mem_append,
    List.mem_singleton, List.mem_singleton] at hl
  obtain (rfl | rfl | hl | rfl) | rfl := hl
  · exact hfirst
  · exact hhost
  · exact hfeed l hl
  · exact hclose
  · exact List.not_mem_nil

/-- A request with a header of the proxy behind a line feed. -/
def hidden : String :=
  "GET http://h HTTP/1.1\r\nX: a\nTE: b\r\n\r\n"

end ZeroNat.Proxy
