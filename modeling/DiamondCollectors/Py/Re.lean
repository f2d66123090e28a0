/-
DiamondCollectors/Py/Re.lean

`re.search` for the patterns the collectors use.  A pattern is built from
single characters of a class, sequence, greedy `?`, greedy `+` over a class,
and numbered capture groups.  `Re.prefixMatches` lists every way a pattern matches a
prefix of the input, in the order Python's backtracking matcher tries them:
greedy repetitions longest first, an optional part before its omission.  The
match `re.search` reports is the first one, at the first start position that
has one.

Each construct has its equation, and the greedy `+` a recursive one
(`prefixMatches_plus_cons`), so that proofs about a pattern go by induction on
the input rather than by unfolding the enumeration.  The other way round,
each construct has a lemma saying what every one of its matches consumed and
captured, and `re.search` one saying where its match starts.
-/
import DiamondCollectors.Py.Num

namespace Diamond

/-- A regular expression over the constructs the collectors' patterns use. -/
inductive Re
  | cls (p : Char → Bool)
  | seq (r t : Re)
  | opt (r : Re)
  | plus (p : Char → Bool)
  | group (i : Nat) (r : Re)

/-- The groups captured so far, the latest first. -/
abbrev Groups := List (Nat × List Char)

namespace Re

/-- Every way `r` matches a prefix of `s` after the groups `g`: the groups then
and the rest of `s`, in backtracking order. -/
def prefixMatches : Re → Groups → List Char → List (Groups × List Char)
  | cls _, _, [] => []
  | cls p, g, c :: s => if p c then [(g, s)] else []
  | seq r t, g, s => (r.prefixMatches g s).flatMap fun m => t.prefixMatches m.1 m.2
  | opt r, g, s => r.prefixMatches g s ++ [(g, s)]
  | plus p, g, s =>
    (List.range (s.takeWhile p).length).reverse.map fun k => (g, s.drop (k + 1))
  | group i r, g, s =>
    (r.prefixMatches g s).map fun m => ((i, s.take (s.length - m.2.length)) :: m.1, m.2)

/-- `re.search(r, s)`: the groups of the first match, trying the start
positions of `s` in order. -/
def search (r : Re) (s : List Char) : Option Groups :=
  s.tails.findSome? fun t => ((r.prefixMatches [] t).head?).map Prod.fst

/-! ### Equations, one per construct -/

@[simp] theorem prefixMatches_cls_nil (p : Char → Bool) (g : Groups) :
    (cls p).prefixMatches g [] = [] := rfl

theorem prefixMatches_cls_cons (p : Char → Bool) (g : Groups) (c : Char) (s : List Char) :
    (cls p).prefixMatches g (c :: s) = if p c then [(g, s)] else [] := rfl

theorem prefixMatches_seq (r t : Re) (g : Groups) (s : List Char) :
    (seq r t).prefixMatches g s = (r.prefixMatches g s).flatMap fun m => t.prefixMatches m.1 m.2 :=
  rfl

theorem prefixMatches_opt (r : Re) (g : Groups) (s : List Char) :
    (opt r).prefixMatches g s = r.prefixMatches g s ++ [(g, s)] := rfl

theorem prefixMatches_group (i : Nat) (r : Re) (g : Groups) (s : List Char) :
    (group i r).prefixMatches g s =
      (r.prefixMatches g s).map fun m => ((i, s.take (s.length - m.2.length)) :: m.1, m.2) := rfl

@[simp] theorem prefixMatches_plus_nil (p : Char → Bool) (g : Groups) :
    (plus p).prefixMatches g [] = [] := rfl

/-- The greedy `+` on `c :: s`: the matches that go on into `s`, longest first,
then the one that stops after `c`. -/
theorem prefixMatches_plus_cons (p : Char → Bool) (g : Groups) (c : Char) (s : List Char) :
    (plus p).prefixMatches g (c :: s) =
      if p c then (plus p).prefixMatches g s ++ [(g, s)] else [] := by
  simp only [prefixMatches, List.takeWhile_cons]
  split
  · simp only [List.length_cons, List.range_succ_eq_map, List.reverse_cons, List.map_append,
      List.map_reverse, List.map_map, List.drop_succ_cons]
    rfl
  · rfl

/-- A single character of a class matches nothing where the class fails at
once. -/
theorem prefixMatches_cls_of_not {p : Char → Bool} (g : Groups) {s : List Char}
    (hs : ∀ c ∈ s.head?, p c = false) : (cls p).prefixMatches g s = [] := by
  cases s with
  | nil => rfl
  | cons c s => rw [prefixMatches_cls_cons, if_neg (by simp [hs c rfl])]

/-- Backtracking through a sequence: the candidates `A` of `r` after which `t`
fails are passed over, and the matches of `t` after the next candidate come
first. -/
theorem prefixMatches_seq_of_eq {r t : Re} {g : Groups} {s : List Char}
    {A T : List (Groups × List Char)} {x : Groups × List Char}
    (hr : r.prefixMatches g s = A ++ x :: T) (hA : ∀ m ∈ A, t.prefixMatches m.1 m.2 = []) :
    (seq r t).prefixMatches g s =
      t.prefixMatches x.1 x.2 ++ T.flatMap fun m => t.prefixMatches m.1 m.2 := by
  rw [prefixMatches_seq, hr, List.flatMap_append, List.flatMap_eq_nil_iff.2 hA, List.flatMap_cons,
    List.nil_append]

/-! ### The greedy `+` -/

/-- The greedy `+` over a non-empty run `u` of its class, then `v`: the matches
that go on into `v`, then the one that stops right after `u`, then shorter
ones. -/
theorem prefixMatches_plus_append {p : Char → Bool} (g : Groups) {u : List Char} (hu : u ≠ [])
    (hpu : ∀ c ∈ u, p c = true) (v : List Char) :
    ∃ T, (plus p).prefixMatches g (u ++ v) = (plus p).prefixMatches g v ++ (g, v) :: T := by
  induction u with
  | nil => exact absurd rfl hu
  | cons c u ih =>
    rw [List.cons_append, prefixMatches_plus_cons, if_pos (hpu c (List.mem_cons_self _ _))]
    by_cases hu' : u = []
    · subst hu'
      exact ⟨[], rfl⟩
    · obtain ⟨T, hT⟩ := ih hu' fun x hx => hpu x (List.mem_cons_of_mem _ hx)
      exact ⟨T ++ [(g, u ++ v)], by rw [hT]; simp⟩

/-- The greedy `+` matches nothing where its class fails at once. -/
theorem prefixMatches_plus_of_not {p : Char → Bool} (g : Groups) {v : List Char}
    (hv : ∀ c ∈ v.head?, p c = false) : (plus p).prefixMatches g v = [] := by
  cases v with
  | nil => rfl
  | cons c v => rw [prefixMatches_plus_cons, if_neg (by simp [hv c rfl])]

/-- Every match of the greedy `+` keeps the groups and leaves a suffix. -/
theorem mem_prefixMatches_plus {p : Char → Bool} {g : Groups} {m : Groups × List Char} :
    ∀ {s : List Char}, m ∈ (plus p).prefixMatches g s → m.1 = g ∧ m.2 <:+ s
  | [], h => absurd h (List.not_mem_nil _)
  | c :: s, h => by
    rw [prefixMatches_plus_cons] at h
    split at h
    · rcases List.mem_append.1 h with h | h
      · obtain ⟨h1, h2⟩ := mem_prefixMatches_plus h
        exact ⟨h1, h2.trans (List.suffix_cons c s)⟩
      · rw [List.mem_singleton] at h
        subst h
        exact ⟨rfl, List.suffix_cons c s⟩
    · exact absurd h (List.not_mem_nil _)

/-! ### What a match consumes -/

theorem mem_prefixMatches_cls {p : Char → Bool} {g : Groups} {m : Groups × List Char}
    {s : List Char} (h : m ∈ (cls p).prefixMatches g s) :
    m.1 = g ∧ ∃ c, p c = true ∧ s = c :: m.2 := by
  cases s with
  | nil => exact absurd h (List.not_mem_nil _)
  | cons c s =>
    rw [prefixMatches_cls_cons] at h
    split at h
    · next hc =>
      rw [List.mem_singleton.1 h]
      exact ⟨rfl, c, hc, rfl⟩
    · exact absurd h (List.not_mem_nil _)

theorem mem_prefixMatches_seq {r t : Re} {g : Groups} {s : List Char} {m : Groups × List Char} :
    m ∈ (seq r t).prefixMatches g s ↔
      ∃ m' ∈ r.prefixMatches g s, m ∈ t.prefixMatches m'.1 m'.2 := by
  rw [prefixMatches_seq, List.mem_flatMap]

theorem mem_prefixMatches_opt {r : Re} {g : Groups} {s : List Char} {m : Groups × List Char} :
    m ∈ (opt r).prefixMatches g s ↔ m ∈ r.prefixMatches g s ∨ m = (g, s) := by
  rw [prefixMatches_opt, List.mem_append, List.mem_singleton]

/-- Every match of the greedy `+` keeps the groups and consumes a non-empty run
of its class. -/
theorem run_of_mem_prefixMatches_plus {p : Char → Bool} {g : Groups} {m : Groups × List Char} :
    ∀ {s : List Char}, m ∈ (plus p).prefixMatches g s →
      m.1 = g ∧ ∃ u, u ≠ [] ∧ (∀ c ∈ u, p c = true) ∧ s = u ++ m.2
  | [], h => absurd h (List.not_mem_nil _)
  | c :: s, h => by
    rw [prefixMatches_plus_cons] at h
    split at h
    · next hc =>
      rcases List.mem_append.1 h with h | h
      · obtain ⟨hg, u, -, hpu, rfl⟩ := run_of_mem_prefixMatches_plus h
        exact ⟨hg, c :: u, List.cons_ne_nil _ _, List.forall_mem_cons.2 ⟨hc, hpu⟩, rfl⟩
      · rw [List.mem_singleton.1 h]
        exact ⟨rfl, [c], List.cons_ne_nil _ _, by simpa using hc, rfl⟩
    · exact absurd h (List.not_mem_nil _)

/-- A group records the text its pattern consumed. -/
theorem mem_prefixMatches_group {i : Nat} {r : Re} {g : Groups} {s : List Char}
    {m : Groups × List Char} (h : m ∈ (group i r).prefixMatches g s) :
    ∃ m' ∈ r.prefixMatches g s, ∀ u, s = u ++ m'.2 → m = ((i, u) :: m'.1, m'.2) := by
  rw [prefixMatches_group, List.mem_map] at h
  obtain ⟨m', hm', rfl⟩ := h
  exact ⟨m', hm', fun u hs => by subst hs; simp⟩

/-! ### `re.search` -/

/-- The groups `re.search` reports are those of a match at some start
position. -/
theorem exists_of_search_eq_some {r : Re} {s : List Char} {g : Groups} (h : r.search s = some g) :
    ∃ t m, t <:+ s ∧ m ∈ r.prefixMatches [] t ∧ m.1 = g := by
  obtain ⟨t, ht, hhead⟩ := List.exists_of_findSome?_eq_some h
  obtain ⟨m, hm, rfl⟩ := Option.map_eq_some'.1 hhead
  exact ⟨t, m, (List.mem_tails _ _).1 ht, List.mem_of_mem_head? hm, rfl⟩

/-- `re.search` finds nothing exactly when no start position has a match. -/
theorem search_eq_none_iff {r : Re} {s : List Char} :
    r.search s = none ↔ ∀ t, t <:+ s → r.prefixMatches [] t = [] := by
  simp only [search, List.findSome?_eq_none_iff, List.mem_tails, Option.map_eq_none',
    List.head?_eq_none_iff]

/-- `re.search` on a pattern that matches at the start reports that match. -/
theorem search_of_head? {r : Re} {s : List Char} {g : Groups} {t : List Char}
    (h : (r.prefixMatches [] s).head? = some (g, t)) : r.search s = some g := by
  cases s <;> simp [search, List.tails, List.findSome?_cons, h]

end Re

/-- `m.group(i)`: the text group `i` captured, `none` if it took no part. -/
def Groups.group (g : Groups) (i : Nat) : Option (List Char) := g.lookup i

/-! ### The collectors' patterns -/

/-- `'((.+)\@)?([^:]+)(:(\d+))?'`, the host specs of `MemcachedCollector`. -/
def hostSpecRe : Re :=
  .seq (.opt (.group 1 (.seq (.group 2 (.plus (· ≠ '\n'))) (.cls (· = '@')))))
    (.seq (.group 3 (.plus (· ≠ ':')))
      (.opt (.group 4 (.seq (.cls (· = ':')) (.group 5 (.plus isDigit))))))

/-- `"-c\x00(\d+)"`, the connection limit on a memcached command line. -/
def maxConnRe : Re :=
  .seq (.cls (· = '-')) (.seq (.cls (· = 'c')) (.seq (.cls (· = '\x00')) (.group 1 (.plus isDigit))))

end Diamond
