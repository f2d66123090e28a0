/-
DiamondCollectors/Collectors/MemcachedSpec.lean

What `MemcachedCollector` does with every answer, every way the answer
arrives, and every list of hosts.

The receive loop keeps a prefix of what the server sent before it closed or
failed (`recvLoop_prefix_delivered`); when the whole answer comes, in chunks of any
size, it keeps exactly the answer (`recvLoop_chunks`).

The parse loop is settled one line at a time: `parseLine_inv` says all a line
can do, and `parseLines_preserves` lifts any property one line keeps to the
whole loop.  Since `pid` is ignored, the loop never records a pid, and the
command-line read of `get_stats` always fails the same way (`getStats_eq`):
`get_stats` is `get_raw_stats` followed by the parse.  Publishing is one effect
per desired name (`publishStats_eq`), and the hosts loop runs each host in turn
until one raises (`collectHosts_cons`, `collectHosts_append_of_ok`).
-/
import DiamondCollectors.Collectors.Memcached

namespace Diamond

/-- A server that lets the socket be created and takes the connection and the
request. -/
def Endpoint.accepts (ep : Endpoint) : Bool := ep.create && ep.connect && ep.send

namespace MemcachedCollector

/-! ### The receive loop -/

/-- The bytes a server sends before it closes the connection or fails. -/
def delivered : List Recv → List Char
  | [] => []
  | .error :: _ => []
  | .bytes b :: rs => if b = [] then [] else b ++ delivered rs

/-- The receive loop adds to `data` a prefix of what the server delivers. -/
theorem recvLoop_prefix_delivered : ∀ (data : List Char) (rs : List Recv),
    ∃ x, x <+: delivered rs ∧ (recvLoop data rs).1 = data ++ x
  | data, [] => ⟨[], List.nil_prefix, by simp [recvLoop]⟩
  | data, .error :: _ => ⟨[], List.nil_prefix, by simp [recvLoop]⟩
  | data, .bytes b :: rs => by
    by_cases hb : b = []
    · exact ⟨[], List.nil_prefix, by simp [recvLoop, hb]⟩
    by_cases he : endsWithEnd (data ++ b)
    · exact ⟨b, by simp [delivered, hb], by simp [recvLoop, hb, he]⟩
    · obtain ⟨x, hx, heq⟩ := recvLoop_prefix_delivered (data ++ b) rs
      exact ⟨b ++ x, by simpa [delivered, hb] using hx, by simp [recvLoop, hb, he, heq]⟩

/-- The terminator `END\r\n`. -/
def endMarker : List Char := "END\r\n".toList

/-- `END\r\n` occurs in `s` only as its suffix. -/
def EndOnlyAtEnd (s : List Char) : Prop :=
  ∀ t ∈ s.tails, endMarker <+: t → t = endMarker

instance (s : List Char) : Decidable (EndOnlyAtEnd s) :=
  inferInstanceAs (Decidable (∀ t ∈ s.tails, _))

theorem endsWithEnd_iff (s : List Char) : endsWithEnd s = true ↔ endMarker <:+ s := by
  simp [endsWithEnd, endMarker]

/-- A prefix of `S` that ends with `END\r\n` is all of `S`, when `END\r\n`
occurs in `S` only as its suffix. -/
theorem eq_of_endsWithEnd {S p q : List Char} (hend : EndOnlyAtEnd S) (hS : p ++ q = S)
    (hp : endsWithEnd p = true) : q = [] := by
  obtain ⟨a, rfl⟩ := (endsWithEnd_iff p).1 hp
  have hmem : endMarker ++ q ∈ S.tails := by
    rw [List.mem_tails, ← hS, List.append_assoc]
    exact List.suffix_append _ _
  simpa using hend _ hmem (List.prefix_append _ _)

/-- The receive loop on an answer `S` that arrives in non-empty chunks returns
`S` once its last chunk is in, whatever comes after. -/
theorem recvLoop_chunks {S : List Char} (hS : endsWithEnd S = true) (hend : EndOnlyAtEnd S)
    (rest : List Recv) :
    ∀ (chunks : List (List Char)) (data : List Char), (∀ c ∈ chunks, c ≠ []) →
      data ++ chunks.flatten = S → data ≠ S → recvLoop data (chunks.map .bytes ++ rest) = (S, false)
  | [], data, _, hjoin, hne => absurd (by simpa using hjoin) hne
  | c :: cs, data, hchunks, hjoin, _ => by
    have hc : c ≠ [] := hchunks c (List.mem_cons_self _ _)
    have hjoin' : (data ++ c) ++ cs.flatten = S := by simpa using hjoin
    by_cases he : endsWithEnd (data ++ c)
    · have hcs : cs.flatten = [] := eq_of_endsWithEnd hend hjoin' he
      simp only [List.map_cons, List.cons_append, recvLoop, hc, he, if_false, if_true]
      simpa [hcs] using hjoin'
    · have hne : data ++ c ≠ S := fun h => he (h ▸ hS)
      simp only [List.map_cons, List.cons_append, recvLoop, hc, he, if_false]
      exact recvLoop_chunks hS hend rest cs (data ++ c)
        (fun c' hc' => hchunks c' (List.mem_cons_of_mem _ hc')) hjoin' hne

/-! ### `get_raw_stats` -/

/-- With a server that takes the request and a port `connect` accepts,
`get_raw_stats` returns what the receive loop kept, and logs the error when a
`socket.error` stopped it. -/
theorem getRawStats_of_accepts {ep : Endpoint} {port : Option (List Char)}
    (hep : ep.accepts = true) (hport : portError port = none) (host : List Char) (m : Counters) :
    getRawStats ep host port m =
      ⟨if (recvLoop [] ep.recvs).2 then [.log .error (failedMsg host port)] else [], m,
        .ok (recvLoop [] ep.recvs).1⟩ := by
  simp only [Endpoint.accepts, Bool.and_eq_true] at hep
  obtain ⟨⟨hc, hn⟩, hs⟩ := hep
  cases h : (recvLoop [] ep.recvs).2 <;>
    simp [getRawStats, exchange, hc, hn, hs, hport, h, closeAndReturn, logError]

/-- `get_raw_stats` leaves the host's counters alone. -/
@[simp] theorem getRawStats_last (ep : Endpoint) (host : List Char) (port : Option (List Char))
    (m : Counters) : (getRawStats ep host port m).last = m := by
  unfold getRawStats closeAndReturn
  rcases exchange ep port with ⟨bound, data, _ | e⟩
  · cases bound <;> rfl
  · by_cases he : e = .socketError <;> cases bound <;> simp [he, logError]

/-- What `get_raw_stats` returns is a prefix of what the server delivered. -/
theorem getRawStats_ok_prefix_delivered {ep : Endpoint} {host : List Char} {port : Option (List Char)}
    {m : Counters} {data : List Char} (h : (getRawStats ep host port m).result = .ok data) :
    data <+: delivered ep.recvs := by
  have hx : (exchange ep port).2.1 <+: delivered ep.recvs := by
    unfold exchange
    split
    · exact List.nil_prefix
    split
    · exact List.nil_prefix
    split
    · exact List.nil_prefix
    obtain ⟨x, hx, heq⟩ := recvLoop_prefix_delivered [] ep.recvs
    simpa [heq] using hx
  revert h hx
  unfold getRawStats closeAndReturn
  rcases exchange ep port with ⟨bound, data', _ | e⟩
  · cases bound <;> simp_all
  · by_cases he : e = .socketError <;> cases bound <;> simp_all [logError]

/-! ### The answer to `stats` -/

/-- The line `STAT key value` of an item. -/
def statLine (kv : List Char × List Char) : List Char :=
  "STAT".toList ++ ' ' :: (kv.1 ++ ' ' :: kv.2)

/-- The answer to `stats`: a `STAT key value` line for each item, then `END`. -/
def statsAnswer (items : List (List Char × List Char)) : List Char :=
  (items.map fun kv => statLine kv ++ "\r\n".toList).flatten ++ endMarker

/-- A byte a key or a value can hold: no space, no line break. -/
def isTokenChar (c : Char) : Bool := c ≠ ' ' && !isLineBreak c

/-- A well-formed item: a non-empty key and value, neither holding a space or a
line break. -/
def WellFormed (kv : List Char × List Char) : Prop :=
  kv.1 ≠ [] ∧ kv.2 ≠ [] ∧ kv.1.all isTokenChar ∧ kv.2.all isTokenChar

instance (kv : List Char × List Char) : Decidable (WellFormed kv) :=
  inferInstanceAs (Decidable (_ ∧ _))

@[simp] theorem statsAnswer_nil : statsAnswer [] = endMarker := rfl

theorem statsAnswer_cons (kv : List Char × List Char) (items : List (List Char × List Char)) :
    statsAnswer (kv :: items) = statLine kv ++ '\r' :: '\n' :: statsAnswer items := by
  simp [statsAnswer]

theorem statLine_noBreak {kv : List Char × List Char} (hkv : WellFormed kv) :
    ∀ c ∈ statLine kv, isLineBreak c = false := by
  obtain ⟨-, -, hk, hv⟩ := hkv
  -- a token character is no line break
  have htok : ∀ s : List Char, s.all isTokenChar → ∀ c ∈ s, isLineBreak c = false :=
    fun s hs c hc => (by simpa [isTokenChar] using List.all_eq_true.1 hs c hc :
      c ≠ ' ' ∧ isLineBreak c = false).2
  intro c hc
  simp only [statLine, List.mem_append, List.mem_cons] at hc
  rcases hc with hc | rfl | hc | rfl | hc
  · revert c; decide
  · rfl
  · exact htok _ hk c hc
  · rfl
  · exact htok _ hv c hc

/-- The last line of an answer. -/
def endLine : List Char := "END".toList

/-- The lines of an answer: its `STAT` lines, then `END`. -/
theorem splitlines_statsAnswer {items : List (List Char × List Char)}
    (hwf : ∀ kv ∈ items, WellFormed kv) :
    splitlines (statsAnswer items) = items.map statLine ++ [endLine] := by
  induction items with
  | nil => rfl
  | cons kv items ih =>
    rw [statsAnswer_cons, splitlines_line_crlf (statLine_noBreak (hwf kv (List.mem_cons_self _ _))),
      ih fun kv' h => hwf kv' (List.mem_cons_of_mem _ h)]
    rfl

/-- The lines of a prefix of `L ++ "\r\n" ++ R`: all within `L`, or `L` and the
lines of a prefix of `R`. -/
theorem splitlines_prefix_crlf {L R P : List Char} (hL : ∀ c ∈ L, isLineBreak c = false)
    (hP : P <+: L ++ '\r' :: '\n' :: R) :
    (∀ l ∈ splitlines P, l <+: L) ∨ ∃ P', P' <+: R ∧ splitlines P = L :: splitlines P' := by
  have hsplit : L ++ '\r' :: '\n' :: R = (L ++ ['\r', '\n']) ++ R := by simp
  rcases List.prefix_or_prefix_of_prefix hP (hsplit ▸ List.prefix_append _ R) with h | h
  · rw [show L ++ ['\r', '\n'] = (L ++ ['\r']) ++ ['\n'] by simp, List.prefix_concat_iff,
      List.prefix_concat_iff] at h
    rcases h with h | h | h
    · exact .inr ⟨[], List.nil_prefix, by simpa [h] using splitlines_line_crlf hL []⟩
    · left
      rw [h, splitlines_append_of_noBreak hL, show splitlines ['\r'] = [[]] from rfl]
      simp
    · left
      rw [splitlines_of_noBreak fun c hc => hL c (h.subset hc)]
      split <;> simp [h]
  · obtain ⟨P', rfl⟩ := h
    rw [hsplit, List.prefix_append_right_inj] at hP
    exact .inr ⟨P', hP, by simpa using splitlines_line_crlf hL P'⟩

/-- Every line of a prefix of an answer is a prefix of `END` or of one of the
answer's `STAT` lines. -/
theorem splitlines_prefix_statsAnswer {items : List (List Char × List Char)}
    (hwf : ∀ kv ∈ items, WellFormed kv) :
    ∀ P, P <+: statsAnswer items → ∀ l ∈ splitlines P,
      l <+: "END".toList ∨ ∃ kv ∈ items, l <+: statLine kv := by
  induction items with
  | nil =>
    intro P hP
    rcases splitlines_prefix_crlf (L := "END".toList) (R := []) (by decide) hP with h | ⟨P', hP', h⟩
    · exact fun l hl => .inl (h l hl)
    · rw [List.prefix_nil.1 hP'] at h
      simp [h, splitlines]
  | cons kv items ih =>
    intro P hP
    rw [statsAnswer_cons] at hP
    rcases splitlines_prefix_crlf (statLine_noBreak (hwf kv (List.mem_cons_self _ _))) hP with
      h | ⟨P', hP', h⟩
    · exact fun l hl => .inr ⟨kv, List.mem_cons_self _ _, h l hl⟩
    · intro l hl
      rw [h, List.mem_cons] at hl
      rcases hl with rfl | hl
      · exact .inr ⟨kv, List.mem_cons_self _ _, List.prefix_refl _⟩
      · rcases ih (fun kv' h => hwf kv' (List.mem_cons_of_mem _ h)) P' hP' l hl with h | ⟨kv', hkv', h⟩
        · exact .inl h
        · exact .inr ⟨kv', List.mem_cons_of_mem _ hkv', h⟩

/-! ### One line of the parse -/

/-- `line.split(' ')` of a prefix of `a + ' ' + b`, where `a` holds no space. -/
theorem splitOn_of_prefix_sep {a b l : List Char} (ha : ∀ c ∈ a, c ≠ ' ') (hl : l <+: a ++ ' ' :: b) :
    (l <+: a ∧ l.splitOn ' ' = [l]) ∨ ∃ l', l' <+: b ∧ l.splitOn ' ' = a :: l'.splitOn ' ' := by
  have ha' : ∀ c ∈ a, ¬(c == ' ') = true := by simpa using ha
  have hsplit : a ++ ' ' :: b = (a ++ [' ']) ++ b := by simp
  rcases List.prefix_or_prefix_of_prefix hl (hsplit ▸ List.prefix_append _ b) with h | h
  · rcases List.prefix_concat_iff.1 h with rfl | h
    · exact .inr ⟨[], List.nil_prefix, List.splitOnP_first _ _ ha' ' ' (by simp) []⟩
    · exact .inl ⟨h, List.splitOnP_eq_single _ _ fun c hc => ha' c (h.subset hc)⟩
  · obtain ⟨l', rfl⟩ := h
    rw [hsplit, List.prefix_append_right_inj] at hl
    exact .inr ⟨l', hl, by simpa using List.splitOnP_first _ _ ha' ' ' (by simp) l'⟩

/-- A key the parse does not ignore is not `pid`. -/
theorem ne_pid_of_not_ignored {k : List Char} (hk : k ∉ ignored) : k ≠ ['p', 'i', 'd'] :=
  fun e => hk (e ▸ by decide)

/-- What one line can do to the parse state: nothing, or, for a line whose
pieces start with `STAT`, a key that is not ignored and a value, set that key.
`pid` is one of `ignored`, so the branch that would keep the pid never runs. -/
theorem parseLine_inv {st st' : ParseState} {line : List Char} (h : parseLine st line = .ok st') :
    st' = st ∨ ∃ k w rest x, line.splitOn ' ' = "STAT".toList :: k :: w :: rest ∧
      k ∉ ignored ∧ statValue w = .ok x ∧ st' = (st.1.set k x, st.2) := by
  unfold parseLine at h
  generalize line.splitOn ' ' = pieces at h ⊢
  rcases pieces with _ | ⟨p, _ | ⟨k, _ | ⟨w, rest⟩⟩⟩ <;>
    simp only [getItem, List.get?, bind, Except.bind, pure, Except.pure] at h
  case nil => cases h
  case cons.nil => split_ifs at h; cases h; exact .inl rfl
  case cons.cons.nil => split_ifs at h <;> cases h <;> exact .inl rfl
  case cons.cons.cons =>
    by_cases hp : p = "STAT".toList
    · by_cases hk : k ∈ ignored
      · simp only [hp, hk, ne_eq, not_true_eq_false, if_false, if_true, Except.ok.injEq] at h
        exact .inl h.symm
      · have hpid : k ≠ "pid".toList := ne_pid_of_not_ignored hk
        cases hv : statValue w with
        | error e => simp [hp, hk, ne_pid_of_not_ignored hk, hv] at h
        | ok x =>
          simp only [hp, hk, hpid, hv, ne_eq, not_true_eq_false, if_false, Except.ok.injEq] at h
          exact .inr ⟨k, w, rest, x, by rw [hp], hk, hv, h.symm⟩
    · simp only [hp, ne_eq, not_false_eq_true, if_true, Except.ok.injEq] at h
      exact .inl h.symm

/-- The parse of a line whose pieces are `STAT`, a key and a value. -/
theorem parseLine_of_pieces {st : ParseState} {line k w : List Char}
    (h : line.splitOn ' ' = ["STAT".toList, k, w]) :
    parseLine st line = if k ∈ ignored then .ok st else (statValue w).map fun x => (st.1.set k x, st.2) := by
  unfold parseLine
  rw [h]
  by_cases hk : k ∈ ignored
  · simp [hk, getItem, bind, Except.bind, pure, Except.pure]
  · cases hv : statValue w <;>
      simp [hk, ne_pid_of_not_ignored hk, hv, getItem, bind, Except.bind, pure, Except.pure, Except.map]

/-- A parse that goes through all the lines keeps every property one line keeps. -/
theorem parseLines_preserves {P : ParseState → Prop} {R : List Char → Prop}
    (hstep : ∀ st st' line, R line → P st → parseLine st line = .ok st' → P st') :
    ∀ (lines : List (List Char)) (st st' : ParseState), (∀ l ∈ lines, R l) → P st →
      parseLines st lines = .ok st' → P st'
  | [], st, st', _, hst, h => by cases h; exact hst
  | line :: lines, st, st', hR, hst, h => by
    simp only [parseLines] at h
    cases h1 : parseLine st line with
    | error e => simp [h1, Except.bind] at h
    | ok st1 =>
      simp only [h1, Except.bind] at h
      exact parseLines_preserves hstep lines st1 st' (fun l hl => hR l (List.mem_cons_of_mem _ hl))
        (hstep st st1 line (hR line (List.mem_cons_self _ _)) hst h1) h

/-! ### `get_stats` -/

/-- `/proc/None/cmdline` does not exist: `None` is not a pid. -/
theorem Procfs.openCmdline_none (pfs : Procfs) : pfs.openCmdline "None".toList = .error .ioError := by
  cases h : pfs.cmdline "None".toList with
  | none => rw [Procfs.openCmdline, h]; rfl
  | some f => exact absurd (pfs.cmdline_pid _ _ h) (by decide)

/-- With no pid, the command-line read fails at `open`. -/
theorem readMaxConn_none (pfs : Procfs) (stats : Dict (List Char) Value) :
    readMaxConn pfs none stats = raise .ioError := by
  funext m
  unfold readMaxConn
  rw [show showOpt none = "None".toList from rfl, Procfs.openCmdline_none]
  rfl

/-- The parse never sets `pid` and never makes `pid` a key. -/
theorem parseLines_pid {lines : List (List Char)} {st : ParseState}
    (h : parseLines (Dict.empty, none) lines = .ok st) :
    st.2 = none ∧ st.1.get? "pid".toList = none := by
  refine parseLines_preserves (P := fun st => st.2 = none ∧ st.1.get? "pid".toList = none)
    (R := fun _ => True) ?_ lines (Dict.empty, none) st (fun _ _ => trivial) ⟨rfl, rfl⟩ h
  intro st st' line _ hst h1
  rcases parseLine_inv h1 with rfl | ⟨k, w, rest, x, -, hk, -, rfl⟩
  · exact hst
  · simpa [Dict.get?_set, (ne_pid_of_not_ignored hk).symm] using hst

/-- What `get_stats` makes of the data: the parsed dict. -/
def parseStats (data : List Char) : Except PyExc (Dict (List Char) Value) :=
  (parseLines (Dict.empty, none) (splitlines data)).map Prod.fst

/-- What `get_stats` does after `get_raw_stats`, as it always runs: the pid is
`None`, so the command-line read fails and is logged. -/
def statsStage (data : List Char) : Coll (Dict (List Char) Value) := do
  let stats ← lift (parseStats data)
  logDebug (pidMsg none)
  logDebug noCmdlineMsg
  pure stats

/-- `get_stats` is `get_raw_stats` followed by the parse: `/proc` plays no part. -/
theorem getStats_eq (ep : Endpoint) (pfs : Procfs) (host : List Char)
    (port : Option (List Char)) : getStats ep pfs host port = getRawStats ep host port >>= statsStage := by
  funext m
  simp only [getStats, statsStage, bind_apply]
  congr 1
  funext data m'
  cases h : parseLines (Dict.empty, none) (splitlines data) with
  | error e => simp [statsStage, parseStats, h, Except.map]
  | ok st =>
    obtain ⟨hpid, -⟩ := parseLines_pid h
    obtain ⟨stats, pid⟩ := st
    cases hpid
    simp [statsStage, parseStats, h, Except.map, readMaxConn_none, catching, logDebug]

/-- `get_stats` leaves the host's counters alone. -/
@[simp] theorem getStats_last (ep : Endpoint) (pfs : Procfs) (host : List Char)
    (port : Option (List Char)) (m : Counters) : (getStats ep pfs host port m).last = m := by
  rw [getStats_eq, bind_apply]
  cases h : (getRawStats ep host port m).result with
  | error e => simp [Outcome.bind, h]
  | ok data =>
    cases hp : parseStats data <;>
      simp [Outcome.bind, h, statsStage, hp, logDebug]

/-! ### The parse of an answer -/

theorem noSpace_of_all_isTokenChar {l : List Char} (h : l.all isTokenChar = true) :
    ∀ c ∈ l, c ≠ ' ' := by
  simp only [List.all_eq_true, isTokenChar, Bool.and_eq_true, decide_eq_true_eq] at h
  exact fun c hc => (h c hc).1

theorem WellFormed.key_noSpace {kv : List Char × List Char} (hkv : WellFormed kv) :
    ∀ c ∈ kv.1, c ≠ ' ' :=
  noSpace_of_all_isTokenChar hkv.2.2.1

theorem WellFormed.value_noSpace {kv : List Char × List Char} (hkv : WellFormed kv) :
    ∀ c ∈ kv.2, c ≠ ' ' :=
  noSpace_of_all_isTokenChar hkv.2.2.2

theorem splitOn_of_noSpace {l : List Char} (hl : ∀ c ∈ l, c ≠ ' ') : l.splitOn ' ' = [l] :=
  List.splitOnP_eq_single _ _ fun c hc => by simpa using hl c hc

/-- The pieces of a `STAT` line: `STAT`, the key, the value. -/
theorem splitOn_statLine {kv : List Char × List Char} (hkv : WellFormed kv) :
    (statLine kv).splitOn ' ' = ["STAT".toList, kv.1, kv.2] := by
  have hk : ∀ c ∈ kv.1, ¬(c == ' ') = true := by simpa using hkv.key_noSpace
  rw [statLine, List.splitOn, List.splitOnP_first _ _ (by decide) ' ' (by simp),
    List.splitOnP_first _ _ hk ' ' (by simp)]
  rw [← List.splitOn, splitOn_of_noSpace hkv.value_noSpace]

/-- The pieces of a cut `STAT` line: when there are three or more, they are
`STAT`, the key, and a prefix of the value. -/
theorem pieces_of_prefix_statLine {kv : List Char × List Char} (hkv : WellFormed kv)
    {l k w : List Char} {rest : List (List Char)} (hl : l <+: statLine kv)
    (h : l.splitOn ' ' = "STAT".toList :: k :: w :: rest) : k = kv.1 ∧ w <+: kv.2 := by
  rcases splitOn_of_prefix_sep (a := "STAT".toList) (by decide) hl with ⟨-, h1⟩ | ⟨l', hl', h1⟩
  · simp [h1] at h
  rw [h1, List.cons.injEq] at h
  rcases splitOn_of_prefix_sep hkv.key_noSpace hl' with ⟨-, h2⟩ | ⟨l'', hl'', h2⟩
  · simp [h2] at h
  rw [h2, splitOn_of_noSpace fun c hc => hkv.value_noSpace c (hl''.subset hc)] at h
  simp only [List.cons.injEq, true_and] at h
  obtain ⟨rfl, rfl, -⟩ := h
  exact ⟨rfl, hl''⟩

/-- The number a stats value shows: what `float` reads from it when it holds a
`.`, and `int` when not. -/
def statNumber (v : List Char) : Option ℚ :=
  if '.' ∈ v then pyFloat v else (pyInt v).map Int.cast

/-- The parse's conversion gives the value's number, or raises. -/
theorem toOption_statValue (v : List Char) : (statValue v).toOption = (statNumber v).map .num := by
  unfold statValue statNumber
  split
  · cases pyFloat v <;> rfl
  · cases pyInt v <;> rfl

/-- The pairs the parse sets for the lines of `items`: each key that is not
ignored, with its value. -/
def parsedItems (items : List (List Char × List Char)) : List (List Char × Value) :=
  items.filterMap fun kv => if kv.1 ∈ ignored then none else (statValue kv.2).toOption.map (kv.1, ·)

/-- A value that has a number, unless its key is ignored. -/
def Numeric (kv : List Char × List Char) : Prop := kv.1 ∉ ignored → (statNumber kv.2).isSome = true

instance (kv : List Char × List Char) : Decidable (Numeric kv) :=
  inferInstanceAs (Decidable (_ → _))

theorem statValue_of_numeric {kv : List Char × List Char} (h : Numeric kv) (hk : kv.1 ∉ ignored) :
    ∃ x, statValue kv.2 = .ok x := by
  obtain ⟨q, hq⟩ := Option.isSome_iff_exists.1 (h hk)
  have hv := toOption_statValue kv.2
  rw [hq] at hv
  cases h' : statValue kv.2 with
  | error e => simp [h', Except.toOption] at hv
  | ok x => exact ⟨x, rfl⟩

/-- The parse of the lines of an answer sets its pairs in turn. -/
theorem parseLines_statLines {items : List (List Char × List Char)}
    (hwf : ∀ kv ∈ items, WellFormed kv) (hnum : ∀ kv ∈ items, Numeric kv) (st : ParseState) :
    parseLines st (items.map statLine ++ [endLine]) = .ok (st.1.setAll (parsedItems items), st.2) := by
  induction items generalizing st with
  | nil => rfl
  | cons kv items ih =>
    have hwf' := fun kv' h => hwf kv' (List.mem_cons_of_mem kv h)
    have hnum' := fun kv' h => hnum kv' (List.mem_cons_of_mem kv h)
    rw [List.map_cons, List.cons_append, parseLines,
      parseLine_of_pieces (splitOn_statLine (hwf kv (List.mem_cons_self _ _)))]
    by_cases hk : kv.1 ∈ ignored
    · rw [if_pos hk, Except.bind, ih hwf' hnum']
      simp [parsedItems, hk]
    · obtain ⟨x, hx⟩ := statValue_of_numeric (hnum kv (List.mem_cons_self _ _)) hk
      rw [if_neg hk, hx, Except.map, Except.bind, ih hwf' hnum']
      simp [parsedItems, hk, hx, Except.toOption, Dict.setAll]

/-- The pair the parse keeps for `k`: none for an ignored key, else the value
of its last line. -/
theorem lookup_parsedItems {l : List (List Char × List Char)} (hnum : ∀ kv ∈ l, Numeric kv)
    (k : List Char) :
    (parsedItems l).lookup k =
      if k ∈ ignored then none else (l.lookup k).bind fun v => (statValue v).toOption := by
  induction l with
  | nil => simp [parsedItems]
  | cons kv l ih =>
    obtain ⟨a, v⟩ := kv
    have ih' := ih fun kv' h => hnum kv' (List.mem_cons_of_mem _ h)
    rw [Dict.lookup_cons_pair]
    by_cases ha : a ∈ ignored
    · have hp : parsedItems ((a, v) :: l) = parsedItems l := by simp [parsedItems, ha]
      rw [hp, ih']
      by_cases hka : k = a
      · subst hka; simp [ha]
      · simp [hka]
    · obtain ⟨x, hx⟩ := statValue_of_numeric (hnum _ (List.mem_cons_self _ _)) ha
      have hp : parsedItems ((a, v) :: l) = (a, x) :: parsedItems l := by
        simp [parsedItems, ha, hx, Except.toOption]
      rw [hp, Dict.lookup_cons_pair, ih']
      by_cases hka : k = a
      · subst hka; simp [ha, hx, Except.toOption]
      · simp [hka]

/-- The value the dict of an answer has for a key: none for an ignored key,
else the value of the key's last line. -/
theorem get?_ofList_parsedItems {items : List (List Char × List Char)}
    (hnum : ∀ kv ∈ items, Numeric kv) (k : List Char) :
    (Dict.ofList (parsedItems items)).get? k =
      if k ∈ ignored then none else ((items.reverse.lookup k).bind statNumber).map .num := by
  have hnumber : ∀ o : Option (List Char),
      (o.bind statNumber).map .num = o.bind fun v => (statValue v).toOption := fun o => by
    simp only [toOption_statValue, Option.map_bind]
    rfl
  rw [Dict.get?_ofList, parsedItems, ← List.filterMap_reverse, ← parsedItems, hnumber]
  convert lookup_parsedItems (fun kv h => hnum kv (List.mem_reverse.1 h)) k

/-- The dict an answer parses to. -/
theorem parseStats_statsAnswer {items : List (List Char × List Char)}
    (hwf : ∀ kv ∈ items, WellFormed kv) (hnum : ∀ kv ∈ items, Numeric kv) :
    parseStats (statsAnswer items) = .ok (Dict.ofList (parsedItems items)) := by
  simp [parseStats, splitlines_statsAnswer hwf, parseLines_statLines hwf hnum, Except.map,
    Dict.ofList]

/-- Every entry of `d` is the parse of a prefix of the value on a `STAT` line of
`items` whose key is not ignored. -/
def FromAnswer (items : List (List Char × List Char)) (d : Dict (List Char) Value) : Prop :=
  ∀ k x, d.get? k = some x →
    ∃ v w, (k, v) ∈ items ∧ k ∉ ignored ∧ w <+: v ∧ (statNumber w).map .num = some x

/-- The parse of a prefix of an answer only sets pairs of the answer, with
possibly cut values. -/
theorem parseStats_of_prefix {items : List (List Char × List Char)}
    (hwf : ∀ kv ∈ items, WellFormed kv) {data : List Char} (hdata : data <+: statsAnswer items)
    {d : Dict (List Char) Value} (h : parseStats data = .ok d) : FromAnswer items d := by
  cases hp : parseLines (Dict.empty, none) (splitlines data) with
  | error e => simp [parseStats, hp, Except.map] at h
  | ok st =>
    simp only [parseStats, hp, Except.map, Except.ok.injEq] at h
    subst h
    refine parseLines_preserves (P := fun st => FromAnswer items st.1)
      (R := fun l => l <+: "END".toList ∨ ∃ kv ∈ items, l <+: statLine kv) ?_ _ (Dict.empty, none) st
      (splitlines_prefix_statsAnswer hwf data hdata) (fun k x hx => by simp at hx) hp
    intro st st' line hline hst h1
    rcases parseLine_inv h1 with rfl | ⟨k, w, rest, x, hpieces, hk, hx, rfl⟩
    · exact hst
    rcases hline with hend | ⟨kv, hkv, hl⟩
    · rw [splitOn_of_noSpace fun c hc =>
        (by decide : ∀ c ∈ "END".toList, c ≠ ' ') c (hend.subset hc)] at hpieces
      simp at hpieces
    obtain ⟨rfl, hw⟩ := pieces_of_prefix_statLine (hwf kv hkv) hl hpieces
    intro k' x' hk'
    rw [Dict.get?_set] at hk'
    split at hk'
    · cases hk'
      subst_vars
      exact ⟨kv.2, w, hkv, hk, hw, by rw [← toOption_statValue, hx]; rfl⟩
    · exact hst k' x' hk'

/-! ### What `get_stats` returns -/

/-- A dict `get_stats` returns is the parse of what `get_raw_stats` returned. -/
theorem getStats_result_ok {ep : Endpoint} {pfs : Procfs} {host : List Char}
    {port : Option (List Char)} {m : Counters} {d : Dict (List Char) Value}
    (h : (getStats ep pfs host port m).result = .ok d) :
    ∃ data, (getRawStats ep host port m).result = .ok data ∧ parseStats data = .ok d := by
  rw [getStats_eq, bind_apply] at h
  cases hr : (getRawStats ep host port m).result with
  | error e => simp [Outcome.bind, hr] at h
  | ok data =>
    refine ⟨data, rfl, ?_⟩
    cases hp : parseStats data <;>
      simp_all [Outcome.bind, statsStage, logDebug]

/-- A `/proc` with no process. -/
def Procfs.empty : Procfs := ⟨fun _ => none, fun _ _ h => nomatch h⟩

/-- **`get_stats` never reads a command line.**  The parse loop's `pid` branch
sits behind the `ignored` test, which already skips `pid`; so `pid` stays
`None`, the read of `/proc/None/cmdline` fails, and the outcome is the same
whatever `/proc` holds.  `pid` is never a key of the result. -/
theorem getStats_procfs_unused (ep : Endpoint) (pfs pfs' : Procfs) (host : List Char)
    (port : Option (List Char)) (m : Counters) :
    getStats ep pfs host port m = getStats ep pfs' host port m ∧
      ∀ d, (getStats ep pfs host port m).result = .ok d → d.get? "pid".toList = none := by
  refine ⟨by rw [getStats_eq, getStats_eq], fun d h => ?_⟩
  obtain ⟨data, -, hd⟩ := getStats_result_ok h
  cases hp : parseLines (Dict.empty, none) (splitlines data) with
  | error e => simp [parseStats, hp, Except.map] at hd
  | ok st =>
    simp only [parseStats, hp, Except.map, Except.ok.injEq] at hd
    exact hd ▸ (parseLines_pid hp).2

/-- Process 1234 runs `memcached -c 1024` and the server reports `pid 1234`:
`get_stats` returns no `limit_maxconn`. -/
theorem getStats_pid_line :
    let pfs : Procfs := ⟨fun p => if p = "1234".toList then
        some (.ofBytes "memcached\x00-c\x001024\x00".toList) else none,
      fun p _ h => by by_cases hp : p = "1234".toList <;> simp_all; decide⟩
    let ep : Endpoint := ⟨true, true, true, [.bytes "STAT pid 1234\r\nEND\r\n".toList]⟩
    ((maxConnRe.search "memcached\x00-c\x001024\x00".toList).map fun g => g.group 1) =
        some (some "1024".toList) ∧
      ((getStats ep pfs "localhost".toList (some "11211".toList) Dict.empty).result.toOption.map
        fun d => d.keys) = some [] := by
  decide

/-- **A cut answer.**  Whatever prefix of a well-formed answer the server gets
out before it closes, fails or falls silent, `get_raw_stats` returns a prefix
of the answer, and each entry of the dict `get_stats` returns is the number of
a prefix of the value on a `STAT` line of the answer for that key, a key that
is not ignored. -/
theorem getStats_of_cut_answer {items : List (List Char × List Char)}
    (hwf : ∀ kv ∈ items, WellFormed kv) {ep : Endpoint}
    (hdel : delivered ep.recvs <+: statsAnswer items) (pfs : Procfs) (host : List Char)
    (port : Option (List Char)) (m : Counters) :
    (∀ data, (getRawStats ep host port m).result = .ok data → data <+: statsAnswer items) ∧
      ∀ d, (getStats ep pfs host port m).result = .ok d → ∀ k x, d.get? k = some x →
        ∃ v w, (k, v) ∈ items ∧ k ∉ ignored ∧ w <+: v ∧ (statNumber w).map .num = some x := by
  have hraw : ∀ data, (getRawStats ep host port m).result = .ok data →
      data <+: statsAnswer items := fun _ hr => (getRawStats_ok_prefix_delivered hr).trans hdel
  refine ⟨hraw, fun d h => ?_⟩
  obtain ⟨data, hr, hd⟩ := getStats_result_ok h
  exact parseStats_of_prefix hwf (hraw data hr) hd

theorem getStats_of_cut_answer_curr_items :
    let items := [("curr_items".toList, "12345".toList)]
    let ep : Endpoint := ⟨true, true, true, [.bytes "STAT curr_items 12".toList]⟩
    (∀ kv ∈ items, WellFormed kv) ∧ delivered ep.recvs <+: statsAnswer items ∧
      ((∀ data, (getRawStats ep "localhost".toList none Dict.empty).result = .ok data →
          data <+: statsAnswer items) ∧
        ∀ d, (getStats ep Procfs.empty "localhost".toList none Dict.empty).result = .ok d →
          ∀ k x, d.get? k = some x →
            ∃ v w, (k, v) ∈ items ∧ k ∉ ignored ∧ w <+: v ∧ (statNumber w).map .num = some x) :=
  ⟨by decide, by decide,
    @getStats_of_cut_answer _ (by decide) ⟨true, true, true, [.bytes "STAT curr_items 12".toList]⟩
      (by decide) Procfs.empty "localhost".toList none Dict.empty⟩

/-- The server sends `STAT curr_items 12` of `STAT curr_items 12345\r\nEND\r\n`
and falls silent: `get_stats` reports 12 items. -/
theorem getStats_cut_value :
    "STAT curr_items 12".toList <+: statsAnswer [("curr_items".toList, "12345".toList)] ∧
      (getStats ⟨true, true, true, [.bytes "STAT curr_items 12".toList]⟩ Procfs.empty
        "localhost".toList (some "11211".toList) Dict.empty).result =
        .ok (Dict.empty.set "curr_items".toList (.num 12)) :=
  ⟨by decide, rfl⟩

/-- `get_raw_stats` on a well-formed answer whose only `END\r\n` is its end,
delivered in full in non-empty chunks: the answer, with nothing logged. -/
theorem getRawStats_of_chunks {items : List (List Char × List Char)}
    (hend : EndOnlyAtEnd (statsAnswer items)) {chunks : List (List Char)}
    (hne : ∀ c ∈ chunks, c ≠ []) (hjoin : chunks.flatten = statsAnswer items) {ep : Endpoint}
    (hep : ep.accepts = true) {rest : List Recv} (hrecv : ep.recvs = chunks.map .bytes ++ rest)
    {port : Option (List Char)} (hport : portError port = none) (host : List Char) (m : Counters) :
    getRawStats ep host port m = ⟨[], m, .ok (statsAnswer items)⟩ := by
  have hS : endsWithEnd (statsAnswer items) = true :=
    (endsWithEnd_iff _).2 (List.suffix_append _ _)
  have hSne : ([] : List Char) ≠ statsAnswer items := fun h => by simp [statsAnswer, endMarker] at h
  rw [getRawStats_of_accepts hep hport, hrecv,
    recvLoop_chunks hS hend rest chunks [] hne (by simpa using hjoin) hSne]
  rfl

/-- `get_stats` on such an answer: the two debug lines, and the dict the answer
parses to. -/
theorem getStats_of_chunks {items : List (List Char × List Char)}
    (hwf : ∀ kv ∈ items, WellFormed kv) (hnum : ∀ kv ∈ items, Numeric kv)
    (hend : EndOnlyAtEnd (statsAnswer items)) {chunks : List (List Char)}
    (hne : ∀ c ∈ chunks, c ≠ []) (hjoin : chunks.flatten = statsAnswer items) {ep : Endpoint}
    (hep : ep.accepts = true) {rest : List Recv} (hrecv : ep.recvs = chunks.map .bytes ++ rest)
    {port : Option (List Char)} (hport : portError port = none) (pfs : Procfs) (host : List Char)
    (m : Counters) :
    getStats ep pfs host port m =
      ⟨[.log .debug (pidMsg none), .log .debug noCmdlineMsg], m,
        .ok (Dict.ofList (parsedItems items))⟩ := by
  rw [getStats_eq, bind_apply, getRawStats_of_chunks hend hne hjoin hep hrecv hport]
  simp [Outcome.bind, statsStage, parseStats_statsAnswer hwf hnum, logDebug]

/-- **Chunking does not matter.**  A well-formed answer whose only `END\r\n` is
its end, delivered in non-empty chunks of any sizes by a server that takes the
connection and the request, is read in full: `get_raw_stats` returns exactly
the answer, `get_stats` does what it does when the answer comes in one chunk,
and its dict holds, for each key that is not ignored, the number on the key's
last line, as `int` or `float` reads it. -/
theorem getStats_chunked {items : List (List Char × List Char)}
    (hwf : ∀ kv ∈ items, WellFormed kv)
    (hnum : ∀ kv ∈ items, kv.1 ∉ ignored → (statNumber kv.2).isSome = true)
    (hend : EndOnlyAtEnd (statsAnswer items)) {chunks : List (List Char)}
    (hne : ∀ c ∈ chunks, c ≠ []) (hjoin : chunks.flatten = statsAnswer items) {ep : Endpoint}
    (hep : ep.accepts = true) {rest : List Recv} (hrecv : ep.recvs = chunks.map .bytes ++ rest)
    {port : Option (List Char)} (hport : portError port = none) (pfs : Procfs)
    (host : List Char) (m : Counters) :
    getRawStats ep host port m = ⟨[], m, .ok (statsAnswer items)⟩ ∧
      getStats ep pfs host port m =
        getStats { ep with recvs := [.bytes (statsAnswer items)] } pfs host port m ∧
      ∃ d, (getStats ep pfs host port m).result = .ok d ∧
        ∀ k, d.get? k =
          if k ∈ ignored then none else ((items.reverse.lookup k).bind statNumber).map .num := by
  -- the same answer in one chunk
  have hone : ∀ c ∈ [statsAnswer items], c ≠ [] := by simp [statsAnswer, endMarker]
  have hep' : ({ ep with recvs := [.bytes (statsAnswer items)] } : Endpoint).accepts = true := by
    simpa [Endpoint.accepts] using hep
  have hrecv' : ({ ep with recvs := [.bytes (statsAnswer items)] } : Endpoint).recvs =
      [statsAnswer items].map .bytes ++ [] := rfl
  have hstats := getStats_of_chunks hwf hnum hend hne hjoin hep hrecv hport pfs host m
  refine ⟨getRawStats_of_chunks hend hne hjoin hep hrecv hport host m, ?_,
    Dict.ofList (parsedItems items), by rw [hstats], get?_ofList_parsedItems hnum⟩
  rw [hstats, getStats_of_chunks hwf hnum hend hone (by simp) hep' hrecv' hport]

theorem getStats_chunked_three_chunks :
    let items := [("curr_items".toList, "12345".toList), ("pid".toList, "7".toList)]
    let chunks := ["STAT curr_items 12".toList, "345\r\nSTAT pid 7\r\nEN".toList, "D\r\n".toList]
    let ep : Endpoint := ⟨true, true, true, chunks.map .bytes⟩
    (∀ kv ∈ items, WellFormed kv) ∧
      (∀ kv ∈ items, kv.1 ∉ ignored → (statNumber kv.2).isSome = true) ∧
      EndOnlyAtEnd (statsAnswer items) ∧ (∀ c ∈ chunks, c ≠ []) ∧
      chunks.flatten = statsAnswer items ∧ ep.accepts = true ∧ ep.recvs = chunks.map .bytes ++ [] ∧
      portError (some "11211".toList) = none ∧
      (getStats ep Procfs.empty "localhost".toList (some "11211".toList) Dict.empty).result =
        .ok (Dict.empty.set "curr_items".toList (.num 12345)) ∧
      getRawStats ep "localhost".toList (some "11211".toList) Dict.empty =
        ⟨[], Dict.empty, .ok (statsAnswer items)⟩ ∧
      getStats ep Procfs.empty "localhost".toList (some "11211".toList) Dict.empty =
        getStats { ep with recvs := [.bytes (statsAnswer items)] } Procfs.empty
          "localhost".toList (some "11211".toList) Dict.empty ∧
      ∃ d, (getStats ep Procfs.empty "localhost".toList (some "11211".toList) Dict.empty).result =
          .ok d ∧
        ∀ k, d.get? k =
          if k ∈ ignored then none else ((items.reverse.lookup k).bind statNumber).map .num :=
  by
  intro items chunks ep
  have hwf : ∀ kv ∈ items, WellFormed kv := by decide
  have hnum : ∀ kv ∈ items, kv.1 ∉ ignored → (statNumber kv.2).isSome = true := by decide
  have hend : EndOnlyAtEnd (statsAnswer items) := by decide
  have hne : ∀ c ∈ chunks, c ≠ [] := by decide
  have hjoin : chunks.flatten = statsAnswer items := by decide
  have hep : ep.accepts = true := rfl
  have hrecv : ep.recvs = chunks.map .bytes ++ [] := rfl
  have hport : portError (some "11211".toList) = none := by decide
  exact ⟨hwf, hnum, hend, hne, hjoin, hep, hrecv, hport, rfl,
    getStats_chunked hwf hnum hend hne hjoin hep hrecv hport Procfs.empty "localhost".toList
      Dict.empty⟩

/-! ### Publishing -/

/-- What `for stat in desired` does with one name: publish `label.stat`, as a
gauge if it is in `GAUGES` and else as a counter, or log that the key is
missing. -/
def publishEffect (label : List Char) (stats : Dict (List Char) Value) (stat : List Char) :
    Effect :=
  match stats.get? stat with
  | some v =>
    .publish (label ++ ".".toList ++ stat) v (if stat ∈ gauges then .gauge else .counter) none
  | none => .log .error (noSuchKeyMsg stat)

theorem publishStats_eq (label : List Char) (stats : Dict (List Char) Value) :
    ∀ (keys : List (List Char)) (m : Counters),
      publishStats label stats keys m = ⟨keys.map (publishEffect label stats), m, .ok ()⟩
  | [], _ => rfl
  | stat :: keys, m => by
    have hone : publishStat label stats stat m = ⟨[publishEffect label stats stat], m, .ok ()⟩ := by
      unfold publishStat publishEffect
      cases stats.get? stat with
      | none => rfl
      | some v => by_cases hs : stat ∈ gauges <;> simp [hs, publishGauge, publishCounter]
    simp [publishStats, hone, publishStats_eq label stats keys m]

/-- One host: its spec is parsed, its stats fetched, and the names `desired`
gives published. -/
theorem collectHost_eq (c : Config) (net : Net) (pfs : Procfs) (host : List Char)
    (m : Counters) :
    collectHost c net pfs host m =
      match parseHost host with
      | .error e => ⟨[], m, .error e⟩
      | .ok (label, hostname, port) =>
        (getStats (net hostname port) pfs hostname port m).bind fun d m' =>
          match desired c.publish d with
          | .ok keys => ⟨keys.map (publishEffect label d), m', .ok ()⟩
          | .error e => ⟨[], m', .error e⟩ := by
  unfold collectHost
  cases parseHost host with
  | error e => rfl
  | ok r =>
    obtain ⟨label, hostname, port⟩ := r
    simp only [bind_apply, lift_apply, Outcome.bind_ok, List.nil_append]
    refine congrArg (Outcome.bind _) (funext fun d => funext fun m' => ?_)
    cases desired c.publish d <;> simp [publishStats_eq]

/-- A host leaves the counters alone. -/
@[simp] theorem collectHost_last (c : Config) (net : Net) (pfs : Procfs) (host : List Char)
    (m : Counters) : (collectHost c net pfs host m).last = m := by
  rw [collectHost_eq]
  rcases parseHost host with e | ⟨label, hostname, port⟩
  · rfl
  · cases h : (getStats (net hostname port) pfs hostname port m).result with
    | error e => simp [Outcome.bind, h]
    | ok d =>
      simp only [Outcome.bind, h]
      split <;> exact getStats_last _ _ _ _ m

/-- **What a host publishes.**  Once a host's stats `d` are in, it publishes,
for each name `for stat in desired` goes through, `alias.name` (a gauge when
the name is in `GAUGES`, else a counter), or logs an error when `d` has no such
key.  The names are the keys of `d` when `publish` is unset, the items of a
list, and the characters of a string. -/
theorem collectHost_publishes {c : Config} {net : Net} {pfs : Procfs}
    {host label hostname : List Char} {port : Option (List Char)} {m : Counters}
    {d : Dict (List Char) Value} (hhost : parseHost host = .ok (label, hostname, port))
    (hstats : (getStats (net hostname port) pfs hostname port m).result = .ok d) :
    collectHost c net pfs host m =
      ⟨(getStats (net hostname port) pfs hostname port m).effects ++
          ((desired c.publish d).toOption.getD []).map (publishEffect label d), m,
        (desired c.publish d).map fun _ => ()⟩ := by
  rw [collectHost_eq, hhost]
  simp only [Outcome.bind, hstats, getStats_last]
  cases desired c.publish d <;> rfl

theorem collectHost_publishes_localhost :
    let net : Net := fun _ _ => ⟨true, true, true, [.bytes "STAT curr_items 5\r\nEND\r\n".toList]⟩
    let c : Config := ⟨.list ["localhost:11211".toList], some (.str "curr_items".toList)⟩
    parseHost "localhost:11211".toList =
        .ok ("localhost".toList, "localhost".toList, some "11211".toList) ∧
      (getStats (net "localhost".toList (some "11211".toList)) Procfs.empty "localhost".toList
        (some "11211".toList) Dict.empty).result = .ok (Dict.empty.set "curr_items".toList (.num 5)) ∧
      collectHost c net Procfs.empty "localhost:11211".toList Dict.empty =
        ⟨(getStats (net "localhost".toList (some "11211".toList)) Procfs.empty "localhost".toList
            (some "11211".toList) Dict.empty).effects ++
          ((desired c.publish (Dict.empty.set "curr_items".toList (.num 5))).toOption.getD []).map
            (publishEffect "localhost".toList (Dict.empty.set "curr_items".toList (.num 5))),
          Dict.empty, (desired c.publish (Dict.empty.set "curr_items".toList (.num 5))).map fun _ => ()⟩ :=
  ⟨rfl, rfl, collectHost_publishes rfl rfl⟩

/-- `publish = curr_items` in the configuration file gives the string
`'curr_items'`: the host publishes nothing and logs one error per character,
where the list `['curr_items']` publishes `localhost.curr_items`. -/
theorem collect_publish_string :
    let net : Net := fun _ _ => ⟨true, true, true, [.bytes "STAT curr_items 5\r\nEND\r\n".toList]⟩
    let run := fun p => collect ⟨.list ["localhost:11211".toList], some p⟩ net Procfs.empty Dict.empty
    published (run (.str "curr_items".toList)).effects = [] ∧
      errors (run (.str "curr_items".toList)).effects =
        ("curr_items".toList.map fun ch => noSuchKeyMsg [ch]) ∧
      published (run (.list ["curr_items".toList])).effects = ["localhost.curr_items".toList] := by
  decide

/-! ### The hosts loop -/

@[simp] theorem collectHosts_last (c : Config) (net : Net) (pfs : Procfs) :
    ∀ (hs : List (List Char)) (m : Counters), (collectHosts c net pfs hs m).last = m
  | [], _ => rfl
  | h :: hs, m => by
    simp only [collectHosts, bind_apply, Outcome.bind]
    split <;> simp [collectHosts_last c net pfs hs]

/-- One step of `for host in hosts`: a host that raises ends the loop. -/
theorem collectHosts_cons (c : Config) (net : Net) (pfs : Procfs) (h : List Char)
    (hs : List (List Char)) (m : Counters) :
    collectHosts c net pfs (h :: hs) m =
      match (collectHost c net pfs h m).result with
      | .ok _ => ⟨(collectHost c net pfs h m).effects ++ (collectHosts c net pfs hs m).effects, m,
          (collectHosts c net pfs hs m).result⟩
      | .error e => ⟨(collectHost c net pfs h m).effects, m, .error e⟩ := by
  simp only [collectHosts, bind_apply, Outcome.bind]
  split <;> simp_all


/-- The hosts loop reads only the `publish` option. -/
theorem collectHosts_publish (hosts hosts' : ConfigValue) (publish : Option ConfigValue)
    (net : Net) (pfs : Procfs) :
    ∀ hs : List (List Char),
      collectHosts ⟨hosts, publish⟩ net pfs hs = collectHosts ⟨hosts', publish⟩ net pfs hs
  | [] => rfl
  | h :: hs => by
    simp only [collectHosts, collectHosts_publish hosts hosts' publish net pfs hs]
    rfl

/-- After hosts that all run through, the loop goes on with the rest. -/
theorem collectHosts_append_of_ok (c : Config) (net : Net) (pfs : Procfs) (m : Counters)
    (rest : List (List Char)) :
    ∀ pre : List (List Char), (collectHosts c net pfs pre m).result = .ok () →
      collectHosts c net pfs (pre ++ rest) m =
        ⟨(collectHosts c net pfs pre m).effects ++ (collectHosts c net pfs rest m).effects, m,
          (collectHosts c net pfs rest m).result⟩
  | [], _ => by
    have hl := collectHosts_last c net pfs rest m
    simp only [collectHosts, List.nil_append, pure_apply]
    generalize collectHosts c net pfs rest m = o at hl ⊢
    cases o
    simp_all
  | h :: pre, hok => by
    rw [collectHosts_cons] at hok
    rw [List.cons_append, collectHosts_cons, collectHosts_cons]
    cases hh : (collectHost c net pfs h m).result with
    | error e => simp [hh] at hok
    | ok u =>
      simp only [hh] at hok ⊢
      simp [collectHosts_append_of_ok c net pfs m rest pre hok]

/-- **Hosts are isolated up to the first that raises.**  When every host before
`h` runs through, the cycle logs and publishes for them what they do alone,
then for `h` what `h` does as the only host, then, unless `h` raised, what the
hosts after it do. -/
theorem collect_hosts_isolated (publish : Option ConfigValue) (net : Net) (pfs : Procfs)
    (pre : List (List Char)) (h : List Char) (post : List (List Char)) (m : Counters)
    (hpre : (collect ⟨.list pre, publish⟩ net pfs m).result = .ok ()) :
    (collect ⟨.list (pre ++ h :: post), publish⟩ net pfs m).effects =
      (collect ⟨.list pre, publish⟩ net pfs m).effects ++
        (collect ⟨.list [h], publish⟩ net pfs m).effects ++
        match (collect ⟨.list [h], publish⟩ net pfs m).result with
        | .ok _ => (collect ⟨.list post, publish⟩ net pfs m).effects
        | .error _ => [] := by
  simp only [collect, hostList, ConfigValue.iter, bind_apply, lift_apply, Outcome.bind_ok,
    List.nil_append] at hpre ⊢
  rw [collectHosts_publish (.list pre) (.list (pre ++ h :: post))] at hpre ⊢
  rw [collectHosts_publish (.list [h]) (.list (pre ++ h :: post)),
    collectHosts_publish (.list post) (.list (pre ++ h :: post)),
    collectHosts_append_of_ok _ net pfs m _ pre hpre, collectHosts_cons, collectHosts_cons]
  cases (collectHost ⟨.list (pre ++ h :: post), publish⟩ net pfs h m).result <;> simp [collectHosts]

theorem collect_hosts_isolated_first :
    let net : Net := fun host _ => if host = "a".toList then ⟨false, true, true, []⟩
      else ⟨true, true, true, [.bytes "STAT curr_items 5\r\nEND\r\n".toList]⟩
    (collect ⟨.list [], none⟩ net Procfs.empty Dict.empty).result = .ok () ∧
      (collect ⟨.list ([] ++ "a:11211".toList :: ["b:11211".toList]), none⟩ net Procfs.empty
          Dict.empty).effects =
        (collect ⟨.list [], none⟩ net Procfs.empty Dict.empty).effects ++
          (collect ⟨.list ["a:11211".toList], none⟩ net Procfs.empty Dict.empty).effects ++
          match (collect ⟨.list ["a:11211".toList], none⟩ net Procfs.empty Dict.empty).result with
          | .ok _ => (collect ⟨.list ["b:11211".toList], none⟩ net Procfs.empty Dict.empty).effects
          | .error _ => [] :=
  ⟨rfl, collect_hosts_isolated none _ Procfs.empty [] _ _ Dict.empty rfl⟩

/-- The socket for host `a` cannot be created: `get_raw_stats` logs the
`socket.error`, then `sock.close()` raises `UnboundLocalError`, which ends the
cycle before host `b`; on its own, `b` publishes `b.curr_items`. -/
theorem collect_unbound_socket :
    let net : Net := fun host _ => if host = "a".toList then ⟨false, true, true, []⟩
      else ⟨true, true, true, [.bytes "STAT curr_items 5\r\nEND\r\n".toList]⟩
    let run := fun hosts => collect ⟨.list hosts, none⟩ net Procfs.empty Dict.empty
    published (run ["a:11211".toList, "b:11211".toList]).effects = [] ∧
      errors (run ["a:11211".toList, "b:11211".toList]).effects =
        [failedMsg "a".toList (some "11211".toList)] ∧
      (run ["a:11211".toList, "b:11211".toList]).result.toBool = false ∧
      published (run ["b:11211".toList]).effects = ["b.curr_items".toList] := by
  decide

/-! ### A cycle with the default configuration -/

/-- The effect for a pair of the dict: its publish. -/
theorem publishEffect_of_mem {label : List Char} {d : Dict (List Char) Value}
    {kv : List Char × Value} (h : kv ∈ d.items) :
    publishEffect label d kv.1 =
      .publish (label ++ ".".toList ++ kv.1) kv.2 (if kv.1 ∈ gauges then .gauge else .counter)
        none := by
  rw [publishEffect, (Dict.get?_eq_some_iff d kv.1 kv.2).2 h]

/-- With `publish` unset, a host publishes every pair of its dict, in order. -/
theorem keys_map_publishEffect (label : List Char) (d : Dict (List Char) Value) :
    d.keys.map (publishEffect label d) = d.items.map fun kv =>
      .publish (label ++ ".".toList ++ kv.1) kv.2 (if kv.1 ∈ gauges then .gauge else .counter)
        none := by
  rw [Dict.keys, List.map_map]
  exact List.map_congr_left fun kv h => publishEffect_of_mem h

/-- **One cycle with the default configuration.**  Let the server on
`localhost:11211` take the connection and the request and send a well-formed
answer, its only `END\r\n` at its end, in non-empty chunks of any sizes.  Then
the cycle returns normally, leaves the counters alone, logs the two debug lines
of `get_stats` and no error, and then publishes, each once and in an order the
statement leaves open (Python 2 goes through `stats.keys()` in hash order),
`localhost.key` for each key of the answer that is not ignored: a gauge when
the key is in `GAUGES` and else a counter, with the number on the key's last
line. -/
theorem collect_default_config {items : List (List Char × List Char)}
    (hwf : ∀ kv ∈ items, WellFormed kv) (hnum : ∀ kv ∈ items, Numeric kv)
    (hend : EndOnlyAtEnd (statsAnswer items)) {chunks : List (List Char)}
    (hne : ∀ c ∈ chunks, c ≠ []) (hjoin : chunks.flatten = statsAnswer items) {net : Net}
    (hep : (net "localhost".toList (some "11211".toList)).accepts = true) {rest : List Recv}
    (hrecv : (net "localhost".toList (some "11211".toList)).recvs = chunks.map .bytes ++ rest)
    (pfs : Procfs) (m : Counters) :
    ∃ es, collect defaultConfig net pfs m =
        ⟨.log .debug (pidMsg none) :: .log .debug noCmdlineMsg :: es, m, .ok ()⟩ ∧
      (published es).Nodup ∧
      ∀ e, e ∈ es ↔ ∃ k q, k ∉ ignored ∧ (items.reverse.lookup k).bind statNumber = some q ∧
        e = .publish ("localhost".toList ++ ".".toList ++ k) (.num q)
          (if k ∈ gauges then .gauge else .counter) none := by
  have hhost : parseHost "localhost:11211".toList =
      .ok ("localhost".toList, "localhost".toList, some "11211".toList) := rfl
  have hport : portError (some "11211".toList) = none := by decide
  have hstats := getStats_of_chunks hwf hnum hend hne hjoin hep hrecv hport pfs "localhost".toList m
  set d := Dict.ofList (parsedItems items)
  refine ⟨d.items.map fun kv => .publish ("localhost".toList ++ ".".toList ++ kv.1) kv.2
    (if kv.1 ∈ gauges then .gauge else .counter) none, ?_, ?_, fun e => ?_⟩
  · -- the one host of the default configuration
    simp only [collect, defaultConfig, hostList, ConfigValue.iter, bind_apply, lift_apply,
      Outcome.bind_ok, List.nil_append, collectHosts, collectHost_eq, hhost, hstats]
    simp [Outcome.bind, desired, keys_map_publishEffect]
  · -- one name per key of the dict
    refine (congrArg List.Nodup (published_map_publish d.items
      (fun kv => "localhost".toList ++ ".".toList ++ kv.1) (·.2)
      (fun kv => if kv.1 ∈ gauges then .gauge else .counter) fun _ => none)).mpr ?_
    have hkeys := d.nodup.map (List.append_right_injective ("localhost".toList ++ ".".toList))
    rwa [List.map_map] at hkeys
  · -- the pairs of the dict
    simp only [List.mem_map, Prod.exists, ← Dict.get?_eq_some_iff, get?_ofList_parsedItems hnum]
    constructor
    · rintro ⟨k, v, hkv, rfl⟩
      split at hkv
      · cases hkv
      · obtain ⟨q, hq, rfl⟩ := Option.map_eq_some'.1 hkv
        exact ⟨k, q, ‹_›, hq, rfl⟩
    · rintro ⟨k, q, hk, hq, rfl⟩
      exact ⟨k, .num q, by rw [if_neg hk, hq, Option.map_some'], rfl⟩

theorem collect_default_config_curr_items :
    let items := [("curr_items".toList, "5".toList), ("pid".toList, "7".toList)]
    let chunks := ["STAT curr_items 5\r\nSTAT pid 7\r\nEN".toList, "D\r\n".toList]
    let net : Net := fun _ _ => ⟨true, true, true, chunks.map .bytes⟩
    (∀ kv ∈ items, WellFormed kv) ∧ (∀ kv ∈ items, Numeric kv) ∧
      EndOnlyAtEnd (statsAnswer items) ∧ (∀ c ∈ chunks, c ≠ []) ∧
      chunks.flatten = statsAnswer items ∧
      (net "localhost".toList (some "11211".toList)).accepts = true ∧
      (net "localhost".toList (some "11211".toList)).recvs = chunks.map .bytes ++ [] ∧
      published (collect defaultConfig net Procfs.empty Dict.empty).effects =
        ["localhost.curr_items".toList] ∧
      ∃ es, collect defaultConfig net Procfs.empty Dict.empty =
          ⟨.log .debug (pidMsg none) :: .log .debug noCmdlineMsg :: es, Dict.empty, .ok ()⟩ ∧
        (published es).Nodup ∧
        ∀ e, e ∈ es ↔ ∃ k q, k ∉ ignored ∧ (items.reverse.lookup k).bind statNumber = some q ∧
          e = .publish ("localhost".toList ++ ".".toList ++ k) (.num q)
            (if k ∈ gauges then .gauge else .counter) none := by
  intro items chunks net
  have hwf : ∀ kv ∈ items, WellFormed kv := by decide
  have hnum : ∀ kv ∈ items, Numeric kv := by decide
  have hend : EndOnlyAtEnd (statsAnswer items) := by decide
  have hne : ∀ c ∈ chunks, c ≠ [] := by decide
  have hjoin : chunks.flatten = statsAnswer items := by decide
  have hep : (net "localhost".toList (some "11211".toList)).accepts = true := rfl
  have hrecv : (net "localhost".toList (some "11211".toList)).recvs = chunks.map .bytes ++ [] := rfl
  exact ⟨hwf, hnum, hend, hne, hjoin, hep, hrecv, by decide,
    collect_default_config hwf hnum hend hne hjoin hep hrecv Procfs.empty Dict.empty⟩

end MemcachedCollector

end Diamond
