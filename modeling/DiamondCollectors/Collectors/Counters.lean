/-
DiamondCollectors/Collectors/Counters.lean

The derivative collectors, `UDPCollector` and `KVMCollector`, on counters
that wrap at 2³².

The host's derivative reports `(modulus - old) + new` when a value goes down.
If the counter advanced by `d` and wrapped, `new = old + d - 2³²`, so it reports
`d + (modulus - 2³²)` (`delta_wrap`): the true advance only for the modulus
2³².  KVM passes `4294967295 = 2³² - 1` and so reports `d - 1` after a wrap;
UDP passes none and reports `d - 2³²`.

Between wraps the counters are reported right over whole runs: a UDP cycle
publishes for a metric the derivative against the metric's own last value
whatever the other metrics do (`UDPCollector.publishAllowed_frame`,
`UDPCollector.collect_at`), and over a run of cycles, as the host schedules
them, each cycle's value is the derivative against the value the cycle before
read (`UDPCollector.run_derivatives`).
-/
import Mathlib.Tactic.Linarith
import Mathlib.Tactic.NormNum
import Mathlib.Tactic.Ring
import DiamondCollectors.Collectors.SnmpSpec
import DiamondCollectors.Collectors.SysfsSpec

namespace Diamond

/-- What the derivative reports for a 32-bit counter read as `old` and then,
having advanced by `d`, as `(old + d) mod 2³²`. -/
theorem delta_wrap (old d : ℕ) (hold : old < 2 ^ 32) (hd : d < 2 ^ 32) (modulus : Option ℚ) :
    delta (some (old : ℚ)) (((old + d) % 2 ^ 32 : ℕ) : ℚ) modulus =
      if old + d < 2 ^ 32 then (d : ℚ)
      else match modulus with
        | some mv => d + (mv - 2 ^ 32)
        | none => d - 2 ^ 32 := by
  by_cases hw : old + d < 2 ^ 32
  · -- no wrap: the difference
    have hnew : (old + d) % 2 ^ 32 = old + d := Nat.mod_eq_of_lt hw
    have hge : ¬ ((old + d : ℕ) : ℚ) < old := by exact_mod_cast (by omega : ¬ old + d < old)
    simp only [delta, hnew, hge, if_false, hw, if_true]
    push_cast
    ring
  · -- a wrap: the correction by the modulus
    have hnew : (old + d) % 2 ^ 32 = old + d - 2 ^ 32 := by omega
    have hcast : ((old + d - 2 ^ 32 : ℕ) : ℚ) = old + d - 2 ^ 32 := by
      rw [Nat.cast_sub (by omega)]
      push_cast
      ring
    have hlt : (old : ℚ) + d - 2 ^ 32 < old := by
      have : (d : ℚ) < 2 ^ 32 := by exact_mod_cast hd
      linarith
    rw [hnew, hcast]
    simp only [delta, hlt, if_true, hw, if_false]
    cases modulus <;> simp only <;> ring

/-- UDP's step for one metric: the derivative of the value read, against the
metric's last value, which the value replaces. -/
theorem UDPCollector.publishOne_values {name raw : List Char} {v : Int} (h : pyLong raw = some v)
    (m : Counters) :
    valuesOf name (UDPCollector.publishOne name raw m).effects =
        [.num (delta (m.get? name) v none)] ∧
      (UDPCollector.publishOne name raw m).last.get? name = some (v : ℚ) := by
  rw [UDPCollector.publishOne_of_long h]
  simp [valuesOf]

/-! ### UDP over a cycle and over a run -/

namespace UDPCollector

/-- A metric other than `n` leaves `n` alone: nothing is published under `n`,
and its counter is as it was. -/
theorem publishOne_frame {n name : List Char} (raw : List Char) (h : name ≠ n) (m : Counters) :
    valuesOf n (publishOne name raw m).effects = [] ∧
      (publishOne name raw m).last.get? n = m.get? n := by
  cases hv : pyLong raw with
  | none => simp [publishOne, hv, Option.elim, valuesOf]
  | some v =>
    rw [publishOne_of_long hv]
    simp [valuesOf, h, Dict.get?_set_ne _ _ (Ne.symm h)]

/-- The publishing loop over metrics other than `n` leaves `n` alone. -/
theorem publishAllowed_frame (allowed : ConfigValue) {n : List Char} :
    ∀ (items : List (List Char × List Char)) (m : Counters), n ∉ items.map Prod.fst →
      valuesOf n (publishAllowed allowed publishOne items m).effects = [] ∧
        (publishAllowed allowed publishOne items m).last.get? n = m.get? n
  | [], _, _ => ⟨rfl, rfl⟩
  | (name, raw) :: items, m, hn => by
    have hne : name ≠ n := fun h => hn (h ▸ List.mem_cons_self _ _)
    have hrest : n ∉ items.map Prod.fst := fun h => hn (List.mem_cons_of_mem _ h)
    obtain ⟨hval, hlast⟩ := publishOne_frame raw hne m
    simp only [publishAllowed, bind_apply, lift_apply]
    cases allowed.len with
    | error e => exact ⟨rfl, rfl⟩
    | ok k =>
      simp only [Outcome.bind_ok, List.nil_append]
      split
      · exact publishAllowed_frame allowed items m hrest
      · rw [bind_apply]
        cases hr : (publishOne name raw m).result with
        | error e => simp [Outcome.bind_of_error hr, hval, hlast]
        | ok u =>
          obtain ⟨hval', hlast'⟩ :=
            publishAllowed_frame allowed items (publishOne name raw m).last hrest
          simp [Outcome.bind_of_ok hr, hval, hval', hlast', hlast]

/-- The publishing loop, with a list-valued allow-list that admits `n`, over
metrics with distinct names among which `n` has the raw value `raw`: when the
loop runs through, it publishes for `n` the derivative of `long(raw)` against
the memory's value, and leaves `long(raw)` in the memory. -/
theorem publishAllowed_at {L : List (List Char)} {n raw : List Char} {v : Int}
    (hv : pyLong raw = some v) (hL : L = [] ∨ n ∈ L) :
    ∀ (items : List (List Char × List Char)) (m : Counters), (items.map Prod.fst).Nodup →
      (n, raw) ∈ items → (publishAllowed (.list L) publishOne items m).result = .ok () →
      valuesOf n (publishAllowed (.list L) publishOne items m).effects =
          [.num (delta (m.get? n) v none)] ∧
        (publishAllowed (.list L) publishOne items m).last.get? n = some (v : ℚ)
  | [], _, _, hmem, _ => absurd hmem (List.not_mem_nil _)
  | (name, r) :: items, m, hnd, hmem, hok => by
    rw [List.map_cons, List.nodup_cons] at hnd
    simp only [publishAllowed, bind_apply, lift_apply, ConfigValue.len, Outcome.bind_ok,
      List.nil_append] at hok ⊢
    rcases List.mem_cons.mp hmem with h | hmem'
    · -- the metric itself: admitted, published, then left alone
      obtain ⟨rfl, rfl⟩ := Prod.mk.inj h
      have hadm : ¬ (0 < L.length ∧ (!ConfigValue.contains (.list L) n) = true) := by
        simp only [ConfigValue.contains, List.length_pos, Bool.not_eq_true', decide_eq_false_iff_not]
        tauto
      rw [if_neg hadm, bind_apply, publishOne_of_long hv m, Outcome.bind_ok]
      obtain ⟨hval, hlast⟩ := publishAllowed_frame (.list L) items (m.set n v) hnd.1
      simp [valuesOf, hval, hlast]
    · -- another metric first: it leaves `n` alone
      have hnn : name ≠ n := fun e => hnd.1 (e ▸ List.mem_map.2 ⟨_, hmem', rfl⟩)
      obtain ⟨hval, hlast⟩ := publishOne_frame r hnn m
      by_cases hskip : 0 < L.length ∧ (!ConfigValue.contains (.list L) name) = true
      · rw [if_pos hskip] at hok ⊢
        exact publishAllowed_at hv hL items m hnd.2 hmem' hok
      · rw [if_neg hskip, bind_apply] at hok ⊢
        cases hr : (publishOne name r m).result with
        | error e => simp [Outcome.bind_of_error hr] at hok
        | ok u =>
          rw [Outcome.bind_of_ok hr] at hok ⊢
          obtain ⟨hval', hlast'⟩ := publishAllowed_at hv hL items _ hnd.2 hmem' hok
          rw [hlast] at hval'
          simp [hval, hval', hlast']

/-- `/proc/net/snmp` in `fs` is readable and has a `Udp` section with a value
for every name, and the metric `n` there has a raw value that `long` reads as
`v`. -/
def ReadsMetric (fs : Fs) (n : List Char) (v : ℤ) : Prop :=
  ∃ text header data raw, fs.access snmpPath = true ∧
    fs.openFile snmpPath = .ok (FileText.ofBytes text) ∧
    seekLines "Udp".toList none (text.length + 1) text = .ok (header, data) ∧
    header ≠ [] ∧ data ≠ [] ∧ (split header).tail.length ≤ (split data).tail.length ∧
    (n, raw) ∈ (Dict.ofList ((split header).tail.zip (split data).tail)).items ∧
    pyLong raw = some v

/-- One UDP cycle, for one metric the allow-list admits: when the cycle runs
through, it publishes for the metric the derivative of its value against the
memory's, and leaves the value in the memory. -/
theorem collect_at {L : List (List Char)} {fs : Fs} {n : List Char} {v : ℤ}
    (hread : ReadsMetric fs n v) (hL : L = [] ∨ n ∈ L) {m : Counters}
    (hok : (collect ⟨.list L⟩ fs m).result = .ok ()) :
    valuesOf n (collect ⟨.list L⟩ fs m).effects = [.num (delta (m.get? n) v none)] ∧
      (collect ⟨.list L⟩ fs m).last.get? n = some (v : ℚ) := by
  obtain ⟨text, header, data, raw, hacc, hopen, hsec, hh, hd, hle, hn, hv⟩ := hread
  have hc : collect ⟨.list L⟩ fs m = publishAllowed (.list L) publishOne
      (Dict.ofList ((split header).tail.zip (split data).tail)).items m :=
    (collectSnmp_section noLines publishOne hacc hopen hsec ⟨.list L⟩ m).1 hh hd hle
  rw [hc] at hok ⊢
  exact publishAllowed_at hv hL _ m (Dict.ofList _).nodup hn hok

/-- **A UDP run, for one metric.**  Over successive texts of `/proc/net/snmp`
in each of which the `Udp` section has a value for every name and the metric
`n`, which the allow-list admits, reads `v₀, v₁, …`, a run of cycles that run
through publishes for `n` the derivative of each value against the one the
cycle before read: `v₀` against the value the memory started with, then `v₁`
against `v₀`, and so on. -/
theorem run_derivatives {L : List (List Char)} {n : List Char} (hL : L = [] ∨ n ∈ L) :
    ∀ (states : List Fs) (vs : List ℤ) (m : Counters),
      List.Forall₂ (fun fs v => ReadsMetric fs n v) states vs →
      (∀ o ∈ runCycles (collect ⟨.list L⟩) m states, o.result = .ok ()) →
      (runCycles (collect ⟨.list L⟩) m states).map (fun o => valuesOf n o.effects) =
        List.zipWith (fun prev (v : ℤ) => [.num (delta prev v none)])
          (m.get? n :: vs.map fun (v : ℤ) => some (v : ℚ)) vs := by
  intro states vs m hreads hok
  have hreads' : List.Forall₂ (fun fs (q : ℚ) => ∃ v : ℤ, ReadsMetric fs n v ∧ (v : ℚ) = q)
      states (vs.map Int.cast) := by
    rw [List.forall₂_map_right_iff]
    exact hreads.imp fun _ v h => ⟨v, h, rfl⟩
  have hrun := runCycles_values (fun _ _ _ ⟨v, hv, hq⟩ hok => hq ▸ collect_at hv hL hok)
    states _ m hreads' hok
  simpa [List.zipWith_map_right, List.map_map, Function.comp_def] using hrun

/-- Two cycles in which `InDatagrams` reads 5 and then 8. -/
theorem run_derivatives_inDatagrams :
    let state := fun data => Fs.withFile snmpPath ("Udp: InDatagrams NoPorts\n".toList ++ data)
    let states := [state "Udp: 5 1\n".toList, state "Udp: 8 1\n".toList]
    (([] : List (List Char)) = [] ∨ "InDatagrams".toList ∈ ([] : List (List Char))) ∧
      List.Forall₂ (fun fs v => ReadsMetric fs "InDatagrams".toList v) states [5, 8] ∧
      (∀ o ∈ runCycles (collect ⟨.list []⟩) Dict.empty states, o.result = .ok ()) ∧
      (runCycles (collect ⟨.list []⟩) Dict.empty states).map
          (fun o => valuesOf "InDatagrams".toList o.effects) =
        List.zipWith (fun prev (v : ℤ) => [.num (delta prev v none)])
          ((Dict.empty : Counters).get? "InDatagrams".toList ::
            [5, 8].map fun (v : ℤ) => some (v : ℚ)) [5, 8] := by
  intro state states
  have hL : ([] : List (List Char)) = [] ∨ "InDatagrams".toList ∈ ([] : List (List Char)) :=
    .inl rfl
  have hreads : List.Forall₂ (fun fs v => ReadsMetric fs "InDatagrams".toList v) states [5, 8] :=
    .cons ⟨_, "Udp: InDatagrams NoPorts\n".toList, "Udp: 5 1\n".toList, "5".toList,
        rfl, rfl, rfl, by decide, by decide, by decide, by decide, by decide⟩
      (.cons ⟨_, "Udp: InDatagrams NoPorts\n".toList, "Udp: 8 1\n".toList, "8".toList,
        rfl, rfl, rfl, by decide, by decide, by decide, by decide, by decide⟩ .nil)
  have hok : ∀ o ∈ runCycles (collect ⟨.list []⟩) Dict.empty states, o.result = .ok () := by
    intro o ho
    simp only [states, runCycles, List.mem_cons, List.not_mem_nil, or_false] at ho
    rcases ho with rfl | rfl <;> rfl
  exact ⟨hL, hreads, hok, run_derivatives hL states [5, 8] Dict.empty hreads hok⟩

end UDPCollector

/-- **A wrapped counter is reported short.**  For a 32-bit counter read as
`old` and then, having advanced by `d < 2³²`, as `(old + d) mod 2³²`: a KVM
cycle that completes publishes `d` for the file, or `d - 1` when the counter
wrapped; UDP publishes `d` for the metric, or `d - 2³²` when it wrapped. -/
theorem counter_wrap_published (old d : ℕ) (hold : old < 2 ^ 32) (hd : d < 2 ^ 32) :
    (∀ (fs : Fs) (names : List (List Char)) (f : List Char) (m : Counters),
      fs.isdir KVMCollector.proc = true → fs.listdir KVMCollector.proc = .ok names → f ∈ names →
      (KVMCollector.collect fs m).result = .ok () →
      KVMCollector.readValue fs f = .ok (((old + d) % 2 ^ 32 : ℕ) : ℚ) → m.get? f = some (old : ℚ) →
      valuesOf f (KVMCollector.collect fs m).effects =
        [.num (if old + d < 2 ^ 32 then (d : ℚ) else d - 1)]) ∧
    (∀ (name raw : List Char) (m : Counters),
      pyLong raw = some (((old + d) % 2 ^ 32 : ℕ) : ℤ) → m.get? name = some (old : ℚ) →
      valuesOf name (UDPCollector.publishOne name raw m).effects =
        [.num (if old + d < 2 ^ 32 then (d : ℚ) else d - 2 ^ 32)]) := by
  refine ⟨fun fs names f m hdir hls hf hok hv hm => ?_, fun name raw m hraw hm => ?_⟩
  · rw [(KVMCollector.collect_at hdir hls hf hok hv).1, hm, delta_wrap old d hold hd]
    norm_num [KVMCollector.maxValue, sub_eq_add_neg]
  · have hcast : ((((old + d) % 2 ^ 32 : ℕ) : ℤ) : ℚ) = (((old + d) % 2 ^ 32 : ℕ) : ℚ) :=
      Int.cast_natCast _
    rw [(UDPCollector.publishOne_values hraw m).1, hm, hcast, delta_wrap old d hold hd]

/-- The failing input: the file `exits` read as 4294967295 in one KVM cycle
and as 0 in the next has advanced by 1, and the cycle publishes 0 for it. -/
theorem counter_wrap_published_exits :
    let fs := Fs.ofEntries [("/sys/kernel/debug/kvm".toList, ["exits".toList])]
      [("/sys/kernel/debug/kvm/exits".toList, "0\n".toList)] (by decide)
    let m := Dict.empty.set "exits".toList (4294967295 : ℚ)
    (4294967295 < 2 ^ 32 ∧ 1 < 2 ^ 32) ∧
      valuesOf "exits".toList (KVMCollector.collect fs m).effects = [.num 0] := by
  intro fs m
  have hv : KVMCollector.readValue fs "exits".toList = .ok (((4294967295 + 1) % 2 ^ 32 : ℕ) : ℚ) := by
    rw [@KVMCollector.readValue_eq fs "exits".toList (FileText.ofBytes "0\n".toList) "0\n".toList []
      rfl rfl, pyFloat_of_digits
      (by decide : strip "0\n".toList = "0".toList) (by decide) (by decide)]
    rfl
  refine ⟨by norm_num, ?_⟩
  rw [(counter_wrap_published 4294967295 1 (by norm_num) (by norm_num)).1 fs ["exits".toList]
    "exits".toList m (by decide) rfl (by simp) rfl hv (Dict.get?_set_self _ _ _)]
  norm_num

end Diamond
