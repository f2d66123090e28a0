/-
DiamondCollectors/Collectors/HostSpec.lean

How `MemcachedCollector.collect` decodes a host spec `[alias@]host[:port]`
(`parseHost`): `re.search('((.+)\@)?([^:]+)(:(\d+))?', host)`, then groups
2, 3 and 5, the alias defaulting to the hostname.

`re.search` reports the first match in backtracking order at the first start
position that has one.  At position 0 the optional alias part `((.+)\@)` is
tried before its omission, and its greedy `.+` longest first, so it stops at
the last `@` it can reach; the hostname `([^:]+)` then runs to the first `:`,
and the port `(\d+)` takes every digit after it.  The pattern is taken apart
into the alias part and the rest (`aliasRe`, `restRe`), with one lemma for
each on the inputs the four forms give, and `parseHost_forms` puts them
together: `a@h:p`, `h:p`, `a@h` and `h` decode as documented, for every
alias without a newline.

`.` does not match a newline.  An alias holding one is out of the greedy
`.+`'s reach, the alias part fails, and the hostname swallows the alias with
its `@` (`parseHost_newline_alias`).  After the hostname's `:` the greedy
`(\d+)` takes the digits up to the first other character, and what follows
them is dropped: `h:11211x` has port `11211`, and `h:` or `h:x` no port
(`parseHost_port_digits`).

Conversely, wherever it starts, every match of the pattern has the shape of a
form (`mem_hostSpecRe`, from one lemma per construct of the matcher in
`Re`): a non-empty hostname without `:`, then perhaps `:` and a non-empty
port of digits, after perhaps an alias without a newline and its `@`.  So on
any spec `parseHost` raises exactly when the spec is made only of `:`, and
whatever it decodes sits in the spec in that shape (`parseHost_wellFormed`).
-/
import DiamondCollectors.Collectors.Memcached

namespace Diamond

open Re

/-! ### The parts of the pattern -/

/-- `((.+)\@)`, the alias with its `@`. -/
def aliasRe : Re := .group 1 (.seq (.group 2 (.plus (· ≠ '\n'))) (.cls (· = '@')))

/-- `([^:]+)`, the hostname. -/
def hostRe : Re := .group 3 (.plus (· ≠ ':'))

/-- `(:(\d+))`, the port with its `:`. -/
def portRe : Re := .group 4 (.seq (.cls (· = ':')) (.group 5 (.plus isDigit)))

/-- `([^:]+)(:(\d+))?`, what follows the alias. -/
def restRe : Re := .seq hostRe (.opt portRe)

theorem hostSpecRe_eq : hostSpecRe = .seq (.opt aliasRe) restRe := rfl

/-! ### The alias part -/

/-- The `@` of the alias part fails after every candidate that leaves a
suffix of a text without `@`. -/
theorem prefixMatches_at_of_suffix {s t : List Char} (hat : '@' ∉ s) (ht : t <:+ s) (g : Groups) :
    (cls (· = '@')).prefixMatches g t = [] :=
  prefixMatches_cls_of_not _ fun _ hc => decide_eq_false fun e =>
    hat (e ▸ ht.subset (List.mem_of_mem_head? hc))

/-- The alias part on `a@s`, for `a` without a newline and `s` without `@`:
the greedy `.+` first runs on past the `@`, where no `@` follows, and the
first candidate that the `@` continues stops right before it. -/
theorem aliasRe_prefixMatches {a s : List Char} (ha : a ≠ []) (hnl : '\n' ∉ a) (hat : '@' ∉ s)
    (g : Groups) :
    ∃ T, aliasRe.prefixMatches g (a ++ '@' :: s) = ((1, a ++ ['@']) :: (2, a) :: g, s) :: T := by
  obtain ⟨T, hT⟩ := prefixMatches_plus_append (p := (· ≠ '\n')) g ha
    (fun c hc => decide_eq_true fun e => hnl (e ▸ hc)) ('@' :: s)
  rw [prefixMatches_plus_cons, if_pos (by decide)] at hT
  -- group 2 over the candidates of `.+`: those that run past the `@`, then the one before it
  have h2 := (prefixMatches_group 2 (plus (· ≠ '\n')) g (a ++ '@' :: s)).trans
    (by rw [hT, List.map_append, List.map_cons])
  -- the candidates that run past the `@` leave a suffix of `s`, where `@` fails
  have hsuf : ∀ m ∈ (plus (· ≠ '\n')).prefixMatches g s ++ [(g, s)], m.2 <:+ s := by
    intro m hm
    rcases List.mem_append.1 hm with hm | hm
    · exact (mem_prefixMatches_plus hm).2
    · rw [List.mem_singleton.1 hm]
  have hpast : ∀ m ∈ ((plus (· ≠ '\n')).prefixMatches g s ++ [(g, s)]).map fun m =>
      ((2, (a ++ '@' :: s).take ((a ++ '@' :: s).length - m.2.length)) :: m.1, m.2),
      (cls (· = '@')).prefixMatches m.1 m.2 = [] := by
    simp only [List.mem_map]
    rintro _ ⟨m, hm, rfl⟩
    exact prefixMatches_at_of_suffix hat (hsuf m hm) _
  have hcap1 : (a ++ '@' :: s).take ((a ++ '@' :: s).length - s.length) = a ++ ['@'] := by
    rw [List.append_cons]
    exact List.take_left' (by simp; omega)
  have hcap2 : (a ++ '@' :: s).take ((a ++ '@' :: s).length - ('@' :: s).length) = a := by simp
  rw [aliasRe, prefixMatches_group, prefixMatches_seq_of_eq h2 hpast, prefixMatches_cls_cons,
    if_pos (by decide), List.singleton_append, List.map_cons]
  simp only [hcap1, hcap2]
  exact ⟨_, rfl⟩

/-- Without an `@` to stop at, the alias part matches nothing. -/
theorem aliasRe_prefixMatches_of_not_mem {s : List Char} (hat : '@' ∉ s) (g : Groups) :
    aliasRe.prefixMatches g s = [] := by
  simp only [aliasRe, prefixMatches_group, prefixMatches_seq, List.map_eq_nil_iff,
    List.flatMap_eq_nil_iff, List.mem_map]
  rintro _ ⟨m, hm, rfl⟩
  exact prefixMatches_at_of_suffix hat (mem_prefixMatches_plus hm).2 _

/-! ### Hostname and port -/

/-- The hostname on `h ++ v`, where `v` is empty or starts with `:`: the first
candidate takes all of `h`. -/
theorem hostRe_prefixMatches {h : List Char} (hh : h ≠ []) (hcolon : ':' ∉ h) {v : List Char}
    (hv : ∀ c ∈ v.head?, c = ':') (g : Groups) :
    ∃ T, hostRe.prefixMatches g (h ++ v) = ((3, h) :: g, v) :: T := by
  obtain ⟨T, hT⟩ := prefixMatches_plus_append (p := (· ≠ ':')) g hh
    (fun c hc => decide_eq_true fun e => hcolon (e ▸ hc)) v
  rw [prefixMatches_plus_of_not (v := v) g fun c hc => by simp [hv c hc]] at hT
  rw [hostRe, prefixMatches_group, hT]
  simp

/-- The optional port on `:p`, for decimal `p`: the first candidate takes all
of `p`. -/
theorem optPortRe_prefixMatches {p : List Char} (hp : p ≠ []) (hdig : ∀ c ∈ p, isDigit c = true)
    (g : Groups) :
    ∃ T, (opt portRe).prefixMatches g (':' :: p) = ((4, ':' :: p) :: (5, p) :: g, []) :: T := by
  obtain ⟨T, hT⟩ := prefixMatches_plus_append g hp hdig []
  rw [List.append_nil, prefixMatches_plus_nil, List.nil_append] at hT
  simp [prefixMatches_opt, portRe, prefixMatches_group, prefixMatches_seq, prefixMatches_cls_cons,
    hT]

/-- The optional port on `:` then a run `p` of digits and a `rest` that does
not start with one: the first candidate takes all of `p`. -/
theorem optPortRe_prefixMatches_run {p rest : List Char} (hp : p ≠ [])
    (hdig : ∀ c ∈ p, isDigit c = true) (hrest : ∀ c ∈ rest.head?, isDigit c = false)
    (g : Groups) :
    ∃ T, (opt portRe).prefixMatches g (':' :: (p ++ rest)) =
      ((4, ':' :: p) :: (5, p) :: g, rest) :: T := by
  obtain ⟨T, hT⟩ := prefixMatches_plus_append g hp hdig rest
  rw [prefixMatches_plus_of_not g hrest, List.nil_append] at hT
  simp [prefixMatches_opt, portRe, prefixMatches_group, prefixMatches_seq, prefixMatches_cls_cons,
    hT]
  rw [show p.length + rest.length + 1 - rest.length = p.length + 1 by omega]
  simp

/-- The optional port on `:r`, for `r` that does not start with a digit: only
its omission. -/
theorem optPortRe_prefixMatches_of_not {r : List Char} (hr : ∀ c ∈ r.head?, isDigit c = false)
    (g : Groups) : (opt portRe).prefixMatches g (':' :: r) = [(g, ':' :: r)] := by
  simp [prefixMatches_opt, portRe, prefixMatches_group, prefixMatches_seq, prefixMatches_cls_cons,
    prefixMatches_plus_of_not g hr]

/-- What follows the alias, on `h:p`: hostname `h`, port `p`. -/
theorem restRe_prefixMatches_port {h p : List Char} (hh : h ≠ []) (hcolon : ':' ∉ h)
    (hp : p ≠ []) (hdig : ∀ c ∈ p, isDigit c = true) (g : Groups) :
    ∃ T, restRe.prefixMatches g (h ++ ':' :: p) =
      ((4, ':' :: p) :: (5, p) :: (3, h) :: g, []) :: T := by
  obtain ⟨T, hT⟩ := hostRe_prefixMatches hh hcolon (v := ':' :: p) (fun _ hc => by cases hc; rfl) g
  obtain ⟨U, hU⟩ := optPortRe_prefixMatches hp hdig ((3, h) :: g)
  rw [restRe, prefixMatches_seq_of_eq (A := []) (by simpa using hT) (by simp), hU]
  exact ⟨_, rfl⟩

/-- What follows the alias, on `h` alone: hostname `h`, no port. -/
theorem restRe_prefixMatches_host {h : List Char} (hh : h ≠ []) (hcolon : ':' ∉ h) (g : Groups) :
    ∃ T, restRe.prefixMatches g h = ((3, h) :: g, []) :: T := by
  obtain ⟨T, hT⟩ := hostRe_prefixMatches hh hcolon (v := []) (fun _ hc => by cases hc) g
  rw [restRe, prefixMatches_seq_of_eq (A := []) (by simpa using hT) (by simp)]
  exact ⟨_, rfl⟩

/-- What follows the alias, on `h:r`: hostname `h`, then the first candidate
of the optional port on `:r`. -/
theorem restRe_prefixMatches_colon {h r : List Char} (hh : h ≠ []) (hcolon : ':' ∉ h)
    {g : Groups} {x : Groups × List Char} {U : List (Groups × List Char)}
    (hU : (opt portRe).prefixMatches ((3, h) :: g) (':' :: r) = x :: U) :
    ∃ T, restRe.prefixMatches g (h ++ ':' :: r) = x :: T := by
  obtain ⟨T, hT⟩ :=
    hostRe_prefixMatches hh hcolon (v := ':' :: r) (fun _ hc => by cases hc; rfl) g
  rw [restRe, prefixMatches_seq_of_eq (A := []) (by simpa using hT) (by simp), hU]
  exact ⟨_, rfl⟩

/-! ### The whole pattern -/

/-- On `a@s`, `s` without `@`: the alias part takes `a@`, and the rest of the
pattern goes on from `s`. -/
theorem hostSpecRe_prefixMatches_alias {a s : List Char} (ha : a ≠ []) (hnl : '\n' ∉ a)
    (hat : '@' ∉ s) :
    ∃ T, hostSpecRe.prefixMatches [] (a ++ '@' :: s) =
      restRe.prefixMatches [(1, a ++ ['@']), (2, a)] s ++ T := by
  obtain ⟨T, hT⟩ := aliasRe_prefixMatches ha hnl hat []
  rw [hostSpecRe_eq, prefixMatches_seq_of_eq (A := [])
    (by rw [prefixMatches_opt, hT]; rfl) (by simp)]
  exact ⟨_, rfl⟩

/-- On `s` without `@`, the alias part is omitted. -/
theorem hostSpecRe_prefixMatches_of_not_mem {s : List Char} (hat : '@' ∉ s) :
    hostSpecRe.prefixMatches [] s = restRe.prefixMatches [] s := by
  rw [hostSpecRe_eq, prefixMatches_seq_of_eq (A := []) (T := [])
    (by rw [prefixMatches_opt, aliasRe_prefixMatches_of_not_mem hat]) (by simp),
    List.flatMap_nil, List.append_nil]

/-! ### What every match captures -/

theorem mem_hostRe {g : Groups} {s : List Char} {m : Groups × List Char}
    (h : m ∈ hostRe.prefixMatches g s) :
    ∃ host, host ≠ [] ∧ ':' ∉ host ∧ s = host ++ m.2 ∧ m.1 = (3, host) :: g := by
  obtain ⟨m', hm', hcap⟩ := mem_prefixMatches_group h
  obtain ⟨hg, u, hu, hpu, hs⟩ := run_of_mem_prefixMatches_plus hm'
  obtain rfl := hcap u hs
  exact ⟨u, hu, fun hc => by simpa using hpu ':' hc, hs, by rw [hg]⟩

theorem mem_aliasRe {g : Groups} {s : List Char} {m : Groups × List Char}
    (h : m ∈ aliasRe.prefixMatches g s) :
    ∃ a, a ≠ [] ∧ '\n' ∉ a ∧ s = a ++ '@' :: m.2 ∧
      m.1 = (1, a ++ ['@']) :: (2, a) :: g := by
  obtain ⟨m₁, hm₁, hcap₁⟩ := mem_prefixMatches_group h
  obtain ⟨m₂, hm₂, hat⟩ := mem_prefixMatches_seq.1 hm₁
  obtain ⟨m₃, hm₃, hcap₂⟩ := mem_prefixMatches_group hm₂
  obtain ⟨hg, a, ha, hpa, hs⟩ := run_of_mem_prefixMatches_plus hm₃
  obtain rfl := hcap₂ a hs
  obtain ⟨h₁, c, hc, hs'⟩ := mem_prefixMatches_cls hat
  obtain rfl : c = '@' := by simpa using hc
  obtain rfl := hcap₁ (a ++ ['@']) (by rw [hs, hs']; simp)
  exact ⟨a, ha, fun hn => by simpa using hpa _ hn, by rw [hs, hs'], by simp [h₁, hg]⟩

theorem mem_optPortRe {g : Groups} {s : List Char} {m : Groups × List Char}
    (h : m ∈ (opt portRe).prefixMatches g s) :
    m = (g, s) ∨ ∃ p, p ≠ [] ∧ (∀ c ∈ p, isDigit c = true) ∧ s = ':' :: (p ++ m.2) ∧
      m.1 = (4, ':' :: p) :: (5, p) :: g := by
  rcases mem_prefixMatches_opt.1 h with h | h
  · obtain ⟨m₁, hm₁, hcap₁⟩ := mem_prefixMatches_group h
    obtain ⟨m₂, hcol, hm₂⟩ := mem_prefixMatches_seq.1 hm₁
    obtain ⟨h₂, c, hc, hs⟩ := mem_prefixMatches_cls hcol
    obtain ⟨m₃, hm₃, hcap₂⟩ := mem_prefixMatches_group hm₂
    obtain ⟨hg, p, hp, hdig, hs'⟩ := run_of_mem_prefixMatches_plus hm₃
    obtain rfl := hcap₂ p hs'
    obtain rfl : c = ':' := by simpa using hc
    obtain rfl := hcap₁ (':' :: p) (by rw [hs, hs']; rfl)
    exact .inr ⟨p, hp, hdig, by rw [hs, hs'], by simp [hg, h₂]⟩
  · exact .inl h

/-- What every match of the whole pattern captures, wherever it starts: a
non-empty hostname without `:`; a port, if any, of digits right after the
hostname's `:`; an alias, if any, without a newline, right before `@` and
the hostname. -/
theorem mem_hostSpecRe {s : List Char} {m : Groups × List Char}
    (h : m ∈ hostSpecRe.prefixMatches [] s) :
    ∃ host, host ≠ [] ∧ ':' ∉ host ∧ m.1.group 3 = some host ∧ host <:+: s ∧
      (∀ p, m.1.group 5 = some p →
        p ≠ [] ∧ (∀ c ∈ p, isDigit c = true) ∧ host ++ ':' :: p <:+: s) ∧
      (∀ a, m.1.group 2 = some a → a ≠ [] ∧ '\n' ∉ a ∧ a ++ '@' :: host <:+: s) := by
  rw [hostSpecRe_eq] at h
  obtain ⟨m₁, hm₁, h⟩ := mem_prefixMatches_seq.1 h
  obtain ⟨m₂, hm₂, hm⟩ := mem_prefixMatches_seq.1 h
  obtain ⟨host, hh, hcolon, hs₂, hg₂⟩ := mem_hostRe hm₂
  -- the alias part: nothing, or `a@`
  obtain ⟨pre, hs₁, hpre⟩ : ∃ pre, s = pre ++ m₁.2 ∧ ((m₁.1 = [] ∧ pre = []) ∨
      ∃ a, a ≠ [] ∧ '\n' ∉ a ∧ pre = a ++ ['@'] ∧
        m₁.1 = [(1, a ++ ['@']), (2, a)]) := by
    rcases mem_prefixMatches_opt.1 hm₁ with ha | rfl
    · obtain ⟨a, ha, hnl, hs, hg⟩ := mem_aliasRe ha
      exact ⟨a ++ ['@'], by simp [hs], .inr ⟨a, ha, hnl, rfl, hg⟩⟩
    · exact ⟨[], rfl, .inl ⟨rfl, rfl⟩⟩
  -- the port part: nothing, or `:p`
  obtain ⟨P, post, hs₃, hP⟩ : ∃ P post, m₂.2 = post ++ m.2 ∧ m.1 = P ++ m₂.1 ∧
      ((P = [] ∧ post = []) ∨ ∃ p, p ≠ [] ∧ (∀ c ∈ p, isDigit c = true) ∧
        post = ':' :: p ∧ P = [(4, ':' :: p), (5, p)]) := by
    rcases mem_optPortRe hm with rfl | ⟨p, hp, hdig, hs, hg⟩
    · exact ⟨[], [], rfl, rfl, .inl ⟨rfl, rfl⟩⟩
    · exact ⟨[(4, ':' :: p), (5, p)], ':' :: p, hs, hg, .inr ⟨p, hp, hdig, rfl, rfl⟩⟩
  obtain ⟨hPg, hP⟩ := hP
  rw [hPg, hg₂]
  -- where the hostname, the port and the alias sit in `s`
  have hhost : host <:+: s := ⟨pre, post ++ m.2, by rw [hs₁, hs₂, hs₃]; simp⟩
  have hport : ∀ p, post = ':' :: p → host ++ ':' :: p <:+: s := fun p hp =>
    ⟨pre, m.2, by rw [hs₁, hs₂, hs₃, hp]; simp⟩
  have halias : ∀ a, pre = a ++ ['@'] → a ++ '@' :: host <:+: s := fun a ha =>
    ⟨[], post ++ m.2, by rw [hs₁, hs₂, hs₃, ha]; simp⟩
  rcases hpre with ⟨h1, rfl⟩ | ⟨a, ha, hnl, rfl, h1⟩ <;>
    rcases hP with ⟨rfl, rfl⟩ | ⟨p, hp, hdig, rfl, rfl⟩ <;>
    rw [h1] <;>
    refine ⟨host, hh, hcolon, by simp [Groups.group, List.lookup_cons], hhost, ?_, ?_⟩ <;>
    simp [Groups.group, List.lookup_cons] <;>
    first
    | exact ⟨hp, hdig, hport p rfl⟩
    | exact ⟨ha, hnl, halias a rfl⟩

/-- A start position at a character other than `:` has a match: no alias, that
character as the hostname, no port. -/
theorem hostSpecRe_prefixMatches_ne_nil {c : Char} (hc : c ≠ ':') (t : List Char) :
    hostSpecRe.prefixMatches [] (c :: t) ≠ [] := by
  have hmem : (([(3, [c])] : Groups), t) ∈ hostSpecRe.prefixMatches [] (c :: t) := by
    rw [hostSpecRe_eq]
    refine mem_prefixMatches_seq.2 ⟨([], c :: t), mem_prefixMatches_opt.2 (.inr rfl), ?_⟩
    refine mem_prefixMatches_seq.2 ⟨([(3, [c])], t), ?_, mem_prefixMatches_opt.2 (.inr rfl)⟩
    rw [hostRe, prefixMatches_group, prefixMatches_plus_cons, if_pos (by simpa using hc)]
    exact List.mem_map.2 ⟨([], t), by simp, by simp⟩
  exact List.ne_nil_of_mem hmem

namespace MemcachedCollector

/-- `parseHost` reads its groups off the first match at position 0. -/
theorem parseHost_of_eq {s t : List Char} {G : Groups} {T : List (Groups × List Char)}
    (h : hostSpecRe.prefixMatches [] s = (G, t) :: T) :
    parseHost s = .ok ((G.group 2).getD ((G.group 3).getD []), (G.group 3).getD [], G.group 5) := by
  rw [parseHost, search_of_head? (by rw [h]; rfl)]

/-- **The four forms of a host spec.**  For a non-empty alias `a` without a
newline, a non-empty hostname `h` without `:` or `@`, and a non-empty decimal
port `p`, `a@h:p`, `h:p`, `a@h` and `h` decode to the alias, hostname and port
they spell, the alias defaulting to the hostname and a missing port to `None`. -/
theorem parseHost_forms {a h p : List Char} (ha : a ≠ []) (hnl : '\n' ∉ a) (hh : h ≠ [])
    (hcolon : ':' ∉ h) (hat : '@' ∉ h) (hp : p ≠ []) (hdig : ∀ c ∈ p, isDigit c = true) :
    parseHost (a ++ '@' :: (h ++ ':' :: p)) = .ok (a, h, some p) ∧
      parseHost (h ++ ':' :: p) = .ok (h, h, some p) ∧
      parseHost (a ++ '@' :: h) = .ok (a, h, none) ∧
      parseHost h = .ok (h, h, none) := by
  have hatp : '@' ∉ h ++ ':' :: p := by
    simp only [List.mem_append, List.mem_cons, not_or]
    exact ⟨hat, by decide, fun hm => absurd (hdig _ hm) (by decide)⟩
  obtain ⟨U, hU⟩ := restRe_prefixMatches_port hh hcolon hp hdig []
  obtain ⟨V, hV⟩ := restRe_prefixMatches_host hh hcolon []
  refine ⟨?_, ?_, ?_, ?_⟩
  · obtain ⟨T, hT⟩ := hostSpecRe_prefixMatches_alias ha hnl hatp
    obtain ⟨W, hW⟩ := restRe_prefixMatches_port hh hcolon hp hdig [(1, a ++ ['@']), (2, a)]
    rw [parseHost_of_eq (by rw [hT, hW]; rfl)]
    rfl
  · rw [parseHost_of_eq (by rw [hostSpecRe_prefixMatches_of_not_mem hatp, hU])]
    rfl
  · obtain ⟨T, hT⟩ := hostSpecRe_prefixMatches_alias ha hnl hat
    obtain ⟨W, hW⟩ := restRe_prefixMatches_host hh hcolon [(1, a ++ ['@']), (2, a)]
    rw [parseHost_of_eq (by rw [hT, hW]; rfl)]
    rfl
  · rw [parseHost_of_eq (by rw [hostSpecRe_prefixMatches_of_not_mem hat, hV])]
    rfl

/-- The documented `app-1@localhost:11212`. -/
theorem parseHost_forms_app :
    "app-1".toList ≠ [] ∧ '\n' ∉ "app-1".toList ∧ "localhost".toList ≠ [] ∧
      ':' ∉ "localhost".toList ∧ '@' ∉ "localhost".toList ∧ "11212".toList ≠ [] ∧
      (∀ c ∈ "11212".toList, isDigit c = true) ∧
      parseHost ("app-1".toList ++ '@' :: ("localhost".toList ++ ':' :: "11212".toList)) =
        .ok ("app-1".toList, "localhost".toList, some "11212".toList) ∧
      parseHost ("localhost".toList ++ ':' :: "11212".toList) =
        .ok ("localhost".toList, "localhost".toList, some "11212".toList) ∧
      parseHost ("app-1".toList ++ '@' :: "localhost".toList) =
        .ok ("app-1".toList, "localhost".toList, none) ∧
      parseHost "localhost".toList = .ok ("localhost".toList, "localhost".toList, none) :=
  ⟨by decide, by decide, by decide, by decide, by decide, by decide, by decide,
    parseHost_forms (by decide) (by decide) (by decide) (by decide) (by decide) (by decide)
      (by decide)⟩

/-- An alias with a newline: `.+` cannot reach the `@`, so `x\ny@h:1` decodes
to hostname and alias `x\ny@h`, where the form gives alias `x\ny`, host `h`. -/
theorem parseHost_newline_alias :
    parseHost ("x\ny".toList ++ '@' :: ("h".toList ++ ':' :: "1".toList)) =
        .ok ("x\ny@h".toList, "x\ny@h".toList, some "1".toList) ∧
      parseHost ("x\ny".toList ++ '@' :: ("h".toList ++ ':' :: "1".toList)) ≠
        .ok ("x\ny".toList, "h".toList, some "1".toList) := by
  have hdec : parseHost ("x\ny".toList ++ '@' :: ("h".toList ++ ':' :: "1".toList)) =
      .ok ("x\ny@h".toList, "x\ny@h".toList, some "1".toList) := rfl
  refine ⟨hdec, fun h => ?_⟩
  rw [hdec] at h
  simp at h

/-- **The port is the run of digits after the hostname's `:`.**  For a
hostname `h` without `:` or `@`, the text after its `:` is read up to the first
character that is not a digit: those digits are the port, none give no port,
and what follows is dropped, with or without an alias. -/
theorem parseHost_port_digits {h p rest : List Char} (hh : h ≠ []) (hcolon : ':' ∉ h)
    (hat : '@' ∉ h) (hdig : ∀ c ∈ p, isDigit c = true)
    (hrest : ∀ c ∈ rest.head?, isDigit c = false) (hat' : '@' ∉ rest) :
    parseHost (h ++ ':' :: (p ++ rest)) = .ok (h, h, if p = [] then none else some p) ∧
      ∀ a, a ≠ [] → '\n' ∉ a →
        parseHost (a ++ '@' :: (h ++ ':' :: (p ++ rest))) =
          .ok (a, h, if p = [] then none else some p) := by
  have hatr : '@' ∉ h ++ ':' :: (p ++ rest) := by
    simp only [List.mem_append, List.mem_cons, not_or]
    exact ⟨hat, by decide, fun hm => absurd (hdig _ hm) (by decide), hat'⟩
  by_cases hp : p = []
  · -- no digit after the colon: no port
    subst hp
    refine ⟨?_, fun a ha hnl => ?_⟩
    · obtain ⟨T, hT⟩ := restRe_prefixMatches_colon hh hcolon
        (optPortRe_prefixMatches_of_not hrest ((3, h) :: []))
      rw [parseHost_of_eq (by rw [hostSpecRe_prefixMatches_of_not_mem hatr, List.nil_append, hT])]
      rfl
    · obtain ⟨T, hT⟩ := hostSpecRe_prefixMatches_alias ha hnl hatr
      obtain ⟨W, hW⟩ := restRe_prefixMatches_colon hh hcolon
        (optPortRe_prefixMatches_of_not hrest ((3, h) :: [(1, a ++ ['@']), (2, a)]))
      rw [parseHost_of_eq (by rw [hT, List.nil_append, hW]; rfl)]
      rfl
  · -- the digits after the colon are the port
    refine ⟨?_, fun a ha hnl => ?_⟩
    · obtain ⟨U, hU⟩ := optPortRe_prefixMatches_run hp hdig hrest ((3, h) :: [])
      obtain ⟨T, hT⟩ := restRe_prefixMatches_colon hh hcolon hU
      rw [parseHost_of_eq (by rw [hostSpecRe_prefixMatches_of_not_mem hatr, hT]), if_neg hp]
      rfl
    · obtain ⟨T, hT⟩ := hostSpecRe_prefixMatches_alias ha hnl hatr
      obtain ⟨U, hU⟩ :=
        optPortRe_prefixMatches_run hp hdig hrest ((3, h) :: [(1, a ++ ['@']), (2, a)])
      obtain ⟨W, hW⟩ := restRe_prefixMatches_colon hh hcolon hU
      rw [parseHost_of_eq (by rw [hT, hW]; rfl), if_neg hp]
      rfl


/-- `localhost:11211/x`, with and without the alias `app-1`. -/
theorem parseHost_port_digits_trailing :
    "localhost".toList ≠ [] ∧ ':' ∉ "localhost".toList ∧ '@' ∉ "localhost".toList ∧
      (∀ c ∈ "11211".toList, isDigit c = true) ∧
      (∀ c ∈ "/x".toList.head?, isDigit c = false) ∧ '@' ∉ "/x".toList ∧
      (parseHost ("localhost".toList ++ ':' :: ("11211".toList ++ "/x".toList)) =
          .ok ("localhost".toList, "localhost".toList,
            if "11211".toList = [] then none else some "11211".toList) ∧
        ∀ a, a ≠ [] → '\n' ∉ a →
          parseHost (a ++ '@' :: ("localhost".toList ++ ':' :: ("11211".toList ++ "/x".toList))) =
            .ok (a, "localhost".toList,
              if "11211".toList = [] then none else some "11211".toList)) :=
  ⟨by decide, by decide, by decide, by decide, by decide, by decide,
    parseHost_port_digits (by decide) (by decide) (by decide) (by decide) (by decide) (by decide)⟩

/-- `parseHost` raises exactly when `re.search` finds no match. -/
theorem parseHost_eq_error_iff (s : List Char) :
    parseHost s = .error .attributeError ↔ hostSpecRe.search s = none := by
  unfold parseHost
  split <;> simp_all

/-- **Every host spec.**  `parseHost` raises `AttributeError`, `re.search`
having found no match, exactly when every character of the spec is `:`.
Otherwise the hostname is non-empty, holds no `:` and is part of the spec;
the port, if any, is a non-empty run of digits right after the hostname's
`:`; and the alias is the hostname, or a non-empty part of the spec without a
newline right before `@` and the hostname. -/
theorem parseHost_wellFormed (s : List Char) :
    (parseHost s = .error .attributeError ↔ ∀ c ∈ s, c = ':') ∧
    ∀ label host port, parseHost s = .ok (label, host, port) →
      host ≠ [] ∧ ':' ∉ host ∧ host <:+: s ∧
      (∀ p ∈ port, p ≠ [] ∧ (∀ c ∈ p, isDigit c = true) ∧ host ++ ':' :: p <:+: s) ∧
      (label = host ∨ label ≠ [] ∧ '\n' ∉ label ∧ label ++ '@' :: host <:+: s) := by
  refine ⟨(parseHost_eq_error_iff s).trans ⟨fun hnone c hc => ?_, fun hall => ?_⟩,
    fun label host port h => ?_⟩
  · -- a character other than `:` starts a match
    by_contra hne
    obtain ⟨x, t, rfl⟩ := List.append_of_mem hc
    exact hostSpecRe_prefixMatches_ne_nil hne t
      (search_eq_none_iff.1 hnone _ (List.suffix_append x _))
  · -- every match takes a hostname, which would hold a character of `s`
    refine search_eq_none_iff.2 fun t ht => List.eq_nil_iff_forall_not_mem.2 fun m hm => ?_
    obtain ⟨host, hh, hcolon, -, hinf, -⟩ := mem_hostSpecRe hm
    obtain ⟨c, hc⟩ := List.exists_mem_of_ne_nil host hh
    exact hcolon (hall c (ht.subset (hinf.subset hc)) ▸ hc)
  · -- the groups of the match `re.search` reports
    cases hG : hostSpecRe.search s with
    | none => rw [(parseHost_eq_error_iff s).2 hG] at h; cases h
    | some G =>
    obtain ⟨t, m, hsuf, hm, rfl⟩ := exists_of_search_eq_some hG
    obtain ⟨h', hh, hcolon, h3, hinf, h5, h2⟩ := mem_hostSpecRe hm
    rw [parseHost, hG] at h
    simp only [h3, Option.getD_some, Except.ok.injEq, Prod.mk.injEq] at h
    obtain ⟨rfl, rfl, rfl⟩ := h
    refine ⟨hh, hcolon, hinf.trans hsuf.isInfix, fun p hp => ?_, ?_⟩
    · obtain ⟨hp, hdig, hpinf⟩ := h5 p hp
      exact ⟨hp, hdig, hpinf.trans hsuf.isInfix⟩
    · cases h2' : m.1.group 2 with
      | none => exact .inl rfl
      | some a =>
        obtain ⟨ha, hnl, hainf⟩ := h2 a h2'
        exact .inr ⟨ha, hnl, hainf.trans hsuf.isInfix⟩

end MemcachedCollector

end Diamond
