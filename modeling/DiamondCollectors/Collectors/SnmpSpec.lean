/-
DiamondCollectors/Collectors/SnmpSpec.lean

What the snmp collectors do with every text of `/proc/net/snmp`.

Reading.  On a file that reads without error the seek loop returns
(`seekLines_none_ok`), and the zip loop builds `dict(zip(header[1:], data[1:]))`
or, when the data row runs out first, raises `IndexError` (`zipMetrics_of_le`,
`zipMetrics_of_lt`).  A cycle has three outcomes (`collectSnmp_section`): the
allow-list filter receives that dict; or the error for a missing section is
logged and nothing is published; or the cycle raises before publishing.

Publishing.  With an allow-list given as a list, and integer values, the names
published are exactly the header names the list admits
(`SnmpProto.collect_published_iff`).
-/
import DiamondCollectors.Collectors.Snmp

namespace Diamond

/-! ### The seek and zip loops -/

theorem seekLines_none_ok (pre : List Char) (fuel : Nat) (s : List Char) :
    ∃ h d, seekLines pre none fuel s = .ok (h, d) := by
  induction fuel generalizing s with
  | zero => exact ⟨[], [], rfl⟩
  | succ fuel ih =>
    obtain ⟨l, r, hr⟩ := readline_none_ok PyExc readSize s
    simp only [seekLines, hr]
    split
    · exact ⟨[], [], rfl⟩
    · split
      · obtain ⟨l', r', hr'⟩ := readline_none_ok PyExc readSize r
        exact ⟨l, l', by simp [hr', Except.map]⟩
      · exact ih r

theorem zipMetrics_of_le {ks vs : List (List Char)} (h : ks.length ≤ vs.length)
    (d : Dict (List Char) (List Char)) : zipMetrics ks vs d = .ok (d.setAll (ks.zip vs)) := by
  induction ks generalizing vs d with
  | nil => rfl
  | cons k ks ih =>
    cases vs with
    | nil => simp at h
    | cons v vs => exact ih (by simpa using h) (d.set k v)

theorem zipMetrics_of_lt {ks vs : List (List Char)} (h : vs.length < ks.length)
    (d : Dict (List Char) (List Char)) : zipMetrics ks vs d = .error .indexError := by
  induction ks generalizing vs d with
  | nil => simp at h
  | cons k ks ih =>
    cases vs with
    | nil => rfl
    | cons v vs => exact ih (by simpa using h) (d.set k v)

/-! ### What the seek loop selects -/

/-- The lines successive `readline(size)` calls return on a text that reads
without error, up to its end; `fuel` bounds their number. -/
def readLines (size : Nat) : Nat → List Char → List (List Char)
  | 0, _ => []
  | fuel + 1, s =>
    match readline (none : Option PyExc) size s with
    | .ok (l, r) => if l = [] then [] else l :: readLines size fuel r
    | .error _ => []

/-- The first of the lines read is what a single `readline` returns. -/
theorem readLines_headD {fuel : Nat} {s l r : List Char}
    (h : readline (none : Option PyExc) readSize s = .ok (l, r)) :
    (readLines readSize (fuel + 1) s).headD [] = l := by
  simp only [readLines, h]
  split <;> simp_all

/-- A line read that is not empty leaves a shorter rest. -/
theorem readline_rest_lt {s l r : List Char}
    (h : readline (none : Option PyExc) readSize s = .ok (l, r)) (hl : l ≠ []) :
    r.length < s.length := by
  have := congrArg List.length (readline_append h)
  rw [List.length_append] at this
  have := List.length_pos.mpr hl
  omega

variable {pre : List Char}

/-- With no line starting with `pre`, the seek loop finds no section. -/
theorem seekLines_of_none {fuel : Nat} {s : List Char} (hfuel : s.length < fuel)
    (hno : ∀ l ∈ readLines readSize fuel s, pre.isPrefixOf l = false) :
    seekLines pre none fuel s = .ok ([], []) := by
  induction fuel generalizing s with
  | zero => rfl
  | succ fuel ih =>
    obtain ⟨l, r, hr⟩ := readline_none_ok PyExc readSize s
    simp only [readLines, hr] at hno
    simp only [seekLines, hr]
    split
    · rfl
    · next hl =>
      simp only [hl, if_false, List.mem_cons, forall_eq_or_imp] at hno
      rw [if_neg (by simp [hno.1])]
      exact ih (by have := readline_rest_lt hr hl; omega) hno.2

/-- **The selection.**  The seek loop returns the first line read that starts
with `pre`, and the line read after it (`''` at the end of the file). -/
theorem seekLines_of_first {fuel : Nat} {s : List Char} (hfuel : s.length < fuel)
    {before after : List (List Char)} {header : List Char}
    (hls : readLines readSize fuel s = before ++ header :: after)
    (hbefore : ∀ l ∈ before, pre.isPrefixOf l = false) (hheader : pre.isPrefixOf header = true) :
    seekLines pre none fuel s = .ok (header, after.headD []) := by
  induction fuel generalizing s before with
  | zero => simp [readLines] at hls
  | succ fuel ih =>
    obtain ⟨l, r, hr⟩ := readline_none_ok PyExc readSize s
    have hrest := readline_rest_lt hr
    simp only [readLines, hr] at hls
    split at hls
    · simp at hls
    · next hl =>
      simp only [seekLines, hr, hl, if_false]
      cases before with
      | nil =>
        obtain ⟨rfl, rfl⟩ := List.cons.inj hls
        obtain ⟨fuel', rfl⟩ : ∃ fuel', fuel = fuel' + 1 :=
          ⟨fuel - 1, by have := hrest hl; omega⟩
        obtain ⟨l', r', hr'⟩ := readline_none_ok PyExc readSize r
        rw [readLines_headD hr']
        simp [hheader, hr', Except.map]
      | cons b before =>
        simp only [List.cons_append, List.cons.injEq] at hls
        obtain ⟨rfl, hls⟩ := hls
        simp only [List.mem_cons, forall_eq_or_imp] at hbefore
        rw [if_neg (by simp [hbefore.1])]
        exact ih (by have := hrest hl; omega) hls hbefore.2

/-! ### One cycle -/

section Cycle

variable {pre : List Char} (noLines : List Char → List Char)
  (publishOne : List Char → List Char → Coll Unit) {fs : Fs} {text header data : List Char}

/-- The reading loop on `PROC = [/proc/net/snmp]`, for a readable file. -/
theorem readSnmp_snmpPath (hacc : fs.access snmpPath = true)
    (hopen : fs.openFile snmpPath = .ok (FileText.ofBytes text))
    (hsec : seekLines pre none (text.length + 1) text = .ok (header, data)) (m : Counters) :
    readSnmp pre noLines fs [snmpPath] Dict.empty m =
      if header = [] ∨ data = [] then ⟨[.log .error (noLines snmpPath)], m, .ok Dict.empty⟩
      else ⟨[], m, zipMetrics (split header).tail (split data).tail Dict.empty⟩ := by
  have hsec' : seekLines pre (FileText.ofBytes text).fault ((FileText.ofBytes text).bytes.length + 1)
      (FileText.ofBytes text).bytes = .ok (header, data) := hsec
  simp only [readSnmp, hacc, hopen, hsec', if_true, bind_apply, lift_apply, Outcome.bind_ok,
    List.nil_append]
  split
  · simp [logError, readSnmp]
  · simp [readSnmp]

/-- **The three outcomes of a cycle.**  With `(header, data)` the lines the seek
loop selects: (1) the filter receives `dict(zip(header[1:], data[1:]))` when the
data row has a value for every name; (2) a missing section logs its error and
publishes nothing; (3) a data row without a value for some name makes the cycle
raise `IndexError` before anything is published. -/
theorem collectSnmp_section (hacc : fs.access snmpPath = true)
    (hopen : fs.openFile snmpPath = .ok (FileText.ofBytes text))
    (hsec : seekLines pre none (text.length + 1) text = .ok (header, data))
    (c : SnmpConfig) (m : Counters) :
    (header ≠ [] → data ≠ [] → (split header).tail.length ≤ (split data).tail.length →
      collectSnmp pre noLines publishOne [snmpPath] c fs m =
        publishAllowed c.allowedNames publishOne
          (Dict.ofList ((split header).tail.zip (split data).tail)).items m) ∧
    (header = [] ∨ data = [] →
      collectSnmp pre noLines publishOne [snmpPath] c fs m =
        ⟨[.log .error (noLines snmpPath)], m, .ok ()⟩) ∧
    (header ≠ [] → data ≠ [] → (split data).tail.length < (split header).tail.length →
      collectSnmp pre noLines publishOne [snmpPath] c fs m = ⟨[], m, .error .indexError⟩) := by
  have hread := readSnmp_snmpPath noLines hacc hopen hsec m
  refine ⟨fun hh hd hle => ?_, fun hmiss => ?_, fun hh hd hlt => ?_⟩
  · -- the filter receives the zipped dict
    rw [if_neg (by tauto), zipMetrics_of_le hle] at hread
    simp [collectSnmp, hread, Dict.ofList]
  · -- no section: the error is logged
    rw [if_pos hmiss] at hread
    simp only [collectSnmp, bind_apply, hread, Outcome.bind_ok]
    rfl
  · -- a short data row: `IndexError`
    rw [if_neg (by tauto), zipMetrics_of_lt hlt] at hread
    simp [collectSnmp, hread]

end Cycle

/-! ### Publishing -/

theorem IPCollector.publishOne_of_long {name raw : List Char} {v : Int} (h : pyLong raw = some v)
    (m : Counters) :
    IPCollector.publishOne name raw m =
      ⟨[.publish name (.num v) (if name ∈ IPCollector.gauges then .gauge else .counter) (some 0)],
        m, .ok ()⟩ := by
  simp only [IPCollector.publishOne, h, Option.elim, bind_apply, lift_apply, Outcome.bind_ok,
    List.nil_append]
  split <;> rfl

theorem UDPCollector.publishOne_of_long {name raw : List Char} {v : Int} (h : pyLong raw = some v)
    (m : Counters) :
    UDPCollector.publishOne name raw m =
      ⟨[.publish name (.num (delta (m.get? name) v none)) .plain (some 0)], m.set name v, .ok ()⟩ := by
  simp [UDPCollector.publishOne, h, Option.elim, publish]

/-- Each collector publishes one metric, under its own name, for a value `long`
accepts. -/
theorem SnmpProto.publishOne_ok (p : SnmpProto) {name raw : List Char} (h : (pyLong raw).isSome)
    (m : Counters) :
    (p.publishOne name raw m).result = .ok () ∧ published (p.publishOne name raw m).effects = [name] := by
  obtain ⟨v, hv⟩ := Option.isSome_iff_exists.mp h
  cases p
  · rw [SnmpProto.publishOne, IPCollector.publishOne_of_long hv]
    exact ⟨rfl, rfl⟩
  · rw [SnmpProto.publishOne, UDPCollector.publishOne_of_long hv]
    exact ⟨rfl, rfl⟩

/-- With a list-valued allow-list `L`, the publishing loop publishes, in order,
the names `L` admits: all of them when `L` is empty, else those equal to an
entry of `L`. -/
theorem publishAllowed_list (L : List (List Char)) (publishOne : List Char → List Char → Coll Unit)
    (items : List (List Char × List Char))
    (hone : ∀ q ∈ items, ∀ m, (publishOne q.1 q.2 m).result = .ok () ∧
      published (publishOne q.1 q.2 m).effects = [q.1])
    (m : Counters) :
    (publishAllowed (.list L) publishOne items m).result = .ok () ∧
      published (publishAllowed (.list L) publishOne items m).effects =
        (items.map Prod.fst).filter fun n => decide (L = [] ∨ n ∈ L) := by
  induction items generalizing m with
  | nil => exact ⟨rfl, rfl⟩
  | cons q items ih =>
    have ih' := ih (fun q' hq => hone q' (List.mem_cons_of_mem _ hq))
    have hq := hone q (List.mem_cons_self _ _) m
    -- the source skips a name when the list is non-empty and does not hold it
    have hskip : (0 < L.length ∧ (!ConfigValue.contains (.list L) q.1) = true) ↔
        ¬ (L = [] ∨ q.1 ∈ L) := by
      simp [ConfigValue.contains, List.length_pos]
    simp only [publishAllowed, bind_apply, lift_apply, ConfigValue.len, Outcome.bind_ok,
      List.nil_append]
    by_cases hL : L = [] ∨ q.1 ∈ L
    · rw [if_neg fun h => hskip.1 h hL, bind_apply, Outcome.bind_of_ok hq.1]
      obtain ⟨hres, hpub⟩ := ih' (publishOne q.1 q.2 m).last
      exact ⟨hres, by simp [hpub, hq.2, hL]⟩
    · rw [if_pos (hskip.2 hL)]
      simpa [hL] using ih' m

/-- Every line read is non-empty. -/
theorem ne_nil_of_mem_readLines {fuel : Nat} {s l : List Char}
    (h : l ∈ readLines readSize fuel s) : l ≠ [] := by
  induction fuel generalizing s with
  | zero => simp [readLines] at h
  | succ fuel ih =>
    obtain ⟨l', r, hr⟩ := readline_none_ok PyExc readSize s
    simp only [readLines, hr] at h
    split at h
    · simp at h
    · next hl =>
      rcases List.mem_cons.mp h with rfl | h
      · exact hl
      · exact ih h

/-- **The cases of a cycle, over every text of `/proc/net/snmp`.**  Lines are
what `readline(5_000_000)` returns.  If no line starts with the protocol's
label, or the first one that does is the last line, the error for a missing
section is logged and nothing is published.  Otherwise, with `data` the line
after that `header`: when `data` has a token for every header name, the
allow-list filter receives exactly `dict(zip(header[1:], data[1:]))`; when it
has fewer, the cycle raises `IndexError` and publishes and logs nothing. -/
theorem SnmpProto.collect_cycle_cases (p : SnmpProto) {fs : Fs} {text : List Char}
    (hacc : fs.access snmpPath = true)
    (hopen : fs.openFile snmpPath = .ok (FileText.ofBytes text)) (c : SnmpConfig) (m : Counters) :
    ((∀ l ∈ readLines readSize (text.length + 1) text, p.pre.isPrefixOf l = false) →
      p.collect c fs m = ⟨[.log .error (p.noLines snmpPath)], m, .ok ()⟩) ∧
    (∀ before header after, readLines readSize (text.length + 1) text = before ++ header :: after →
      (∀ l ∈ before, p.pre.isPrefixOf l = false) → p.pre.isPrefixOf header = true →
      (after = [] → p.collect c fs m = ⟨[.log .error (p.noLines snmpPath)], m, .ok ()⟩) ∧
      (∀ data ∈ after.head?, (split header).tail.length ≤ (split data).tail.length →
        p.collect c fs m = publishAllowed c.allowedNames p.publishOne
          (Dict.ofList ((split header).tail.zip (split data).tail)).items m) ∧
      (∀ data ∈ after.head?, (split data).tail.length < (split header).tail.length →
        p.collect c fs m = ⟨[], m, .error .indexError⟩)) := by
  rw [SnmpProto.collect_eq]
  refine ⟨fun hno => ?_, fun before header after hls hbefore hheader => ?_⟩
  · -- no line starts with the label
    have hsec := seekLines_of_none (Nat.lt_succ_self _) hno
    exact (collectSnmp_section p.noLines p.publishOne hacc hopen hsec c m).2.1 (Or.inl rfl)
  · have hsec := seekLines_of_first (Nat.lt_succ_self _) hls hbefore hheader
    have hcases := collectSnmp_section p.noLines p.publishOne hacc hopen hsec c m
    have hmem : ∀ l ∈ header :: after, l ≠ [] := fun l hl =>
      ne_nil_of_mem_readLines (hls ▸ List.mem_append_right before hl)
    have hh : header ≠ [] := hmem header (List.mem_cons_self _ _)
    refine ⟨fun hafter => ?_, fun data hd hle => ?_, fun data hd hlt => ?_⟩
    · -- the header is the last line
      subst hafter
      exact hcases.2.1 (Or.inr rfl)
    · -- a value for every name
      obtain ⟨rest, rfl⟩ := List.head?_eq_some_iff.1 hd
      exact hcases.1 hh (hmem data (by simp)) hle
    · -- a short data row
      obtain ⟨rest, rfl⟩ := List.head?_eq_some_iff.1 hd
      exact hcases.2.2 hh (hmem data (by simp)) hlt

/-- A cycle on a well-formed section hands both pairs to the filter. -/
theorem collect_cycle_cases_wellformed :
    (Fs.withFile snmpPath "Ip: Forwarding DefaultTTL\nIp: 1 64\n".toList).access snmpPath = true ∧
    (Fs.withFile snmpPath "Ip: Forwarding DefaultTTL\nIp: 1 64\n".toList).openFile snmpPath =
      .ok (FileText.ofBytes "Ip: Forwarding DefaultTTL\nIp: 1 64\n".toList) ∧
    IPCollector.collect ⟨.list []⟩ (Fs.withFile snmpPath "Ip: Forwarding DefaultTTL\nIp: 1 64\n".toList)
        Dict.empty =
      publishAllowed (.list []) IPCollector.publishOne
        (Dict.ofList [("Forwarding".toList, "1".toList), ("DefaultTTL".toList, "64".toList)]).items
        Dict.empty :=
  ⟨rfl, rfl, ((SnmpProto.collect_cycle_cases .ip rfl rfl ⟨.list []⟩ Dict.empty).2 []
    "Ip: Forwarding DefaultTTL\n".toList ["Ip: 1 64\n".toList] (by decide) (by simp) rfl).2.1
    "Ip: 1 64\n".toList rfl (by decide)⟩

/-- A blank data row: `IPCollector.collect` logs no error and raises
`IndexError`, indexing past the end of the empty data row. -/
theorem IPCollector.collect_blank_data_row :
    (IPCollector.collect ⟨.list []⟩ (Fs.withFile snmpPath "Ip: Forwarding\n\n".toList)
      Dict.empty).result = .error .indexError ∧
    errors (IPCollector.collect ⟨.list []⟩ (Fs.withFile snmpPath "Ip: Forwarding\n\n".toList)
      Dict.empty).effects = [] := by
  constructor
  · rfl
  · decide

/-- **The allow-list, for a list-valued `allowed_names`.**  Take a text whose
selected data row has a token for every header token and an integer at every
index the header names.  Then a name is published in the cycle iff it is a
header token after the label and the allow-list is empty or lists it. -/
theorem SnmpProto.collect_published_iff (p : SnmpProto) {fs : Fs} {text header data : List Char}
    (hacc : fs.access snmpPath = true)
    (hopen : fs.openFile snmpPath = .ok (FileText.ofBytes text))
    (hsec : seekLines p.pre none (text.length + 1) text = .ok (header, data))
    (harity : (split header).length ≤ (split data).length)
    (hint : ∀ q ∈ (split header).tail.zip (split data).tail, (pyLong q.2).isSome)
    (L : List (List Char)) (m : Counters) (n : List Char) :
    n ∈ published (p.collect ⟨.list L⟩ fs m).effects ↔ n ∈ (split header).tail ∧ (L = [] ∨ n ∈ L) := by
  have hcases := collectSnmp_section p.noLines p.publishOne hacc hopen hsec ⟨.list L⟩ m
  rw [SnmpProto.collect_eq]
  by_cases hmiss : header = [] ∨ data = []
  · -- no section: nothing is published, and the header has no names
    have hnames : (split header).tail = [] := by
      rcases hmiss with rfl | rfl
      · rfl
      · have : (split header).length = 0 := by simpa [split] using harity
        simp [List.eq_nil_of_length_eq_zero this]
    rw [hcases.2.1 hmiss, hnames]
    simp [published]
  · push_neg at hmiss
    have hle : (split header).tail.length ≤ (split data).tail.length := by simp; omega
    rw [hcases.1 hmiss.1 hmiss.2 hle]
    have hone : ∀ q ∈ (Dict.ofList ((split header).tail.zip (split data).tail)).items, ∀ m,
        (p.publishOne q.1 q.2 m).result = .ok () ∧
          published (p.publishOne q.1 q.2 m).effects = [q.1] :=
      fun q hq m => p.publishOne_ok (hint q (Dict.mem_items_ofList hq)) m
    rw [(publishAllowed_list L p.publishOne _ hone m).2, List.mem_filter]
    have hkeys : n ∈ (Dict.ofList ((split header).tail.zip (split data).tail)).items.map Prod.fst ↔
        n ∈ (split header).tail := by
      rw [← Dict.keys, Dict.mem_keys_ofList, List.map_fst_zip _ _ hle]
    simp [hkeys]

/-- The allow-list `[Forwarding]` lets `Forwarding` through. -/
theorem collect_published_iff_forwarding :
    (Fs.withFile snmpPath "Ip: Forwarding DefaultTTL\nIp: 1 64\n".toList).access snmpPath = true ∧
    (Fs.withFile snmpPath "Ip: Forwarding DefaultTTL\nIp: 1 64\n".toList).openFile snmpPath =
      .ok (FileText.ofBytes "Ip: Forwarding DefaultTTL\nIp: 1 64\n".toList) ∧
    (split "Ip: Forwarding DefaultTTL\n".toList).length ≤ (split "Ip: 1 64\n".toList).length ∧
    ("Forwarding".toList ∈ published (SnmpProto.ip.collect ⟨.list ["Forwarding".toList]⟩
        (Fs.withFile snmpPath "Ip: Forwarding DefaultTTL\nIp: 1 64\n".toList) Dict.empty).effects ↔
      "Forwarding".toList ∈ (split "Ip: Forwarding DefaultTTL\n".toList).tail ∧
        (["Forwarding".toList] = [] ∨ "Forwarding".toList ∈ ["Forwarding".toList])) :=
  ⟨rfl, rfl, by decide, @SnmpProto.collect_published_iff .ip
    (Fs.withFile snmpPath "Ip: Forwarding DefaultTTL\nIp: 1 64\n".toList)
    "Ip: Forwarding DefaultTTL\nIp: 1 64\n".toList "Ip: Forwarding DefaultTTL\n".toList
    "Ip: 1 64\n".toList rfl rfl rfl (by decide) (by decide)
    ["Forwarding".toList] Dict.empty "Forwarding".toList⟩

/-- Two texts where the allow-list does not decide what is published.  With
the default `allowed_names` string, `InAddr`, which the string does not list,
is published: Python's `in` on a string is a substring test.  With an empty
allow-list, the header name `Forwarding` is not published: its value `x` makes
`long` raise. -/
theorem IPCollector.collect_allow_list_counterexample :
    "InAddr".toList ∈ published (IPCollector.collect ⟨IPCollector.defaultAllowedNames⟩
      (Fs.withFile snmpPath "Ip: Forwarding InAddr\nIp: 1 100\n".toList) Dict.empty).effects ∧
    "InAddr".toList ∉ ["InAddrErrors", "InDelivers", "InDiscards", "InHdrErrors", "InReceives",
      "InUnknownProtos", "OutDiscards", "OutNoRoutes", "OutRequests"].map String.toList ∧
    "Forwarding".toList ∉ published (IPCollector.collect ⟨.list []⟩
      (Fs.withFile snmpPath "Ip: Forwarding\nIp: x\n".toList) Dict.empty).effects :=
  ⟨by decide, by decide, by decide⟩

end Diamond
