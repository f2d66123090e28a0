/-
DiamondCollectors/Collectors/CounterRuns.lean

The derivative collectors' counters over every run.  A KVM or UDP cycle, on
any files and from any counter memory, is one step of the counter machine of
`CounterState` for every metric (`KVMCollector.collect_samplesOnce`,
`UDPCollector.collect_samplesOnce`).  It either leaves the metric's counter
alone, or publishes for the metric once, the derivative of the value it read
against the counter's last value, and keeps that value.  Each follows from
one lemma per loop: a metric's entry comes once in the debugfs listing and in
the metrics dict, and every other entry leaves the metric's counter alone.

So every run the host makes is a run of the counter machine, whichever cycles
raise and whichever skip the metric (`KVMCollector.run_refines_file_counter`,
`UDPCollector.run_refines_metric_counter`).  A cycle that raises before it
reaches a metric leaves the metric's counter as it was, and the next value
published for the metric is taken against the last value it was published for.
-/
import DiamondCollectors.CounterState
import DiamondCollectors.Collectors.Counters

namespace Diamond

/-! ### KVM -/

namespace KVMCollector

theorem collectFile_frames (fs : Fs) {f g : List Char} (h : g ≠ f) :
    Frames f (collectFile fs g) :=
  (frames_lift _).bind fun _ => (frames_derivative h _ _).bind fun _ => frames_publish h _ _

theorem collectFile_samplesOnce (fs : Fs) (f : List Char) :
    SamplesOnce f (some maxValue) (fun v => readValue fs f = .ok v) (collectFile fs f) :=
  SamplesOnce.lift_bind fun v hv =>
    (samplesOnce_derivative_publish v none).mono fun _ hw => hw ▸ hv

/-- The loop over a listing in which each name comes once: the file `f`, if
listed, is its one sample. -/
theorem collectFiles_samplesOnce (fs : Fs) (f : List Char) :
    ∀ names : List (List Char), names.Nodup →
      SamplesOnce f (some maxValue) (fun v => readValue fs f = .ok v) (collectFiles fs names)
  | [], _ => (frames_pure ()).samplesOnce
  | g :: names, hnd => by
    obtain ⟨hg, hnd⟩ := List.nodup_cons.mp hnd
    by_cases hgf : g = f
    · subst hgf
      exact (collectFile_samplesOnce fs g).bind_frames fun _ m => collectFiles_frame fs names m hg
    · exact (collectFile_frames fs hgf).bind_samplesOnce fun _ =>
        collectFiles_samplesOnce fs f names hnd

/-- **Every KVM cycle is one step of each file's counter.**  On any state of
debugfs and from any memory, the cycle leaves the counter of `f` alone, or
publishes for `f` once, the derivative of the value it read from `f` against
the counter's last value, and keeps that value. -/
theorem collect_samplesOnce (fs : Fs) (f : List Char) :
    SamplesOnce f (some maxValue) (fun v => readValue fs f = .ok v) (collect fs) := by
  unfold collect
  split
  · exact SamplesOnce.lift_bind fun names hls =>
      collectFiles_samplesOnce fs f names (fs.listdir_valid proc names hls).1
  · exact (frames_logError missingMsg).samplesOnce

/-- **A KVM run, whatever each cycle meets.**  Over any successive states of
debugfs and from any memory, whichever cycles raise and whichever skip the
file `f`, the values a run publishes for `f` and the value it leaves for it
are those of the counter machine on one sample per cycle: none, or the value
the cycle read from `f`. -/
theorem run_refines_file_counter (f : List Char) (states : List Fs) (m : Counters) :
    ∃ samples : List (Option ℚ),
      List.Forall₂ (fun fs s => ∀ v ∈ s, readValue fs f = .ok v) states samples ∧
      (runCycles collect m states).map (fun o => valuesOf f o.effects) =
        (counterRun (some maxValue) (m.get? f) samples).1 ∧
      (runMemory collect m states).get? f = (counterRun (some maxValue) (m.get? f) samples).2 :=
  runCycles_refines (fun fs => collect_samplesOnce fs f) states m

end KVMCollector

/-! ### The `/proc/net/snmp` reading loop -/

section Reading

variable (pre : List Char) (noLines : List Char → List Char) (fs : Fs)

/-- The reading loop publishes nothing and leaves every counter alone. -/
theorem readSnmp_frames (n : List Char) :
    ∀ (paths : List (List Char)) (metrics : Dict (List Char) (List Char)),
      Frames n (readSnmp pre noLines fs paths metrics)
  | [], _ => frames_pure _
  | path :: paths, metrics => by
    unfold readSnmp
    split
    · refine (frames_lift _).bind fun _ => (frames_lift _).bind fun ⟨header, data⟩ => ?_
      dsimp only
      split
      · exact (frames_logError _).bind fun _ => readSnmp_frames n paths metrics
      · exact (frames_lift _).bind fun metrics' => readSnmp_frames n paths metrics'
    · exact (frames_logError _).bind fun _ => readSnmp_frames n paths metrics

/-- The reading loop does not use the counter memory. -/
theorem readSnmp_oblivious :
    ∀ (paths : List (List Char)) (metrics : Dict (List Char) (List Char)),
      Oblivious (readSnmp pre noLines fs paths metrics)
  | [], _ => oblivious_pure _
  | path :: paths, metrics => by
    unfold readSnmp
    split
    · refine (oblivious_lift _).bind fun _ => (oblivious_lift _).bind fun ⟨header, data⟩ => ?_
      dsimp only
      split
      · exact (oblivious_emit _).bind fun _ => readSnmp_oblivious paths metrics
      · exact (oblivious_lift _).bind fun metrics' => readSnmp_oblivious paths metrics'
    · exact (oblivious_emit _).bind fun _ => readSnmp_oblivious paths metrics

end Reading

/-! ### UDP -/

namespace UDPCollector

/-- The value of the metric `n` a UDP cycle reads from `fs`: `long` of its raw
value in the metrics dict, when the reading loop raises nothing and `long`
accepts the value.  The loop does not use the counter memory
(`readSnmp_oblivious`), so the empty memory stands for any. -/
def sampleOf (fs : Fs) (n : List Char) : Option ℚ :=
  match (readSnmp "Udp".toList noLines fs proc Dict.empty Dict.empty).result with
  | .ok metrics => (metrics.get? n).bind fun raw => (pyLong raw).map Int.cast
  | .error _ => none

theorem publishOne_samplesOnce (n raw : List Char) :
    SamplesOnce n none (fun v => (pyLong raw).map Int.cast = some v) (publishOne n raw) := by
  refine SamplesOnce.lift_bind fun w hw =>
    (samplesOnce_derivative_publish (w : ℚ) (some 0)).mono ?_
  rintro _ rfl
  cases h : pyLong raw <;> simp_all [Option.elim]

/-- The publishing loop over items with distinct names: the metric `n`, if it
is an item the allow-list lets through, is its one sample. -/
theorem publishAllowed_samplesOnce (allowed : ConfigValue) (n : List Char) :
    ∀ items : List (List Char × List Char), (items.map Prod.fst).Nodup →
      SamplesOnce n none
        (fun v => ∃ raw, (n, raw) ∈ items ∧ (pyLong raw).map Int.cast = some v)
        (publishAllowed allowed publishOne items)
  | [], _ => (frames_pure ()).samplesOnce
  | (name, raw) :: items, hnd => by
    rw [List.map_cons, List.nodup_cons] at hnd
    -- the items after this one, with the sample read among all of them
    have ih : SamplesOnce n none
        (fun v => ∃ r, (n, r) ∈ (name, raw) :: items ∧ (pyLong r).map Int.cast = some v)
        (publishAllowed allowed publishOne items) :=
      (publishAllowed_samplesOnce allowed n items hnd.2).mono
        fun _ ⟨r, hr, hv⟩ => ⟨r, List.mem_cons_of_mem _ hr, hv⟩
    refine SamplesOnce.lift_bind fun _ _ => ?_
    split
    · exact ih
    · by_cases hn : name = n
      · subst hn
        exact ((publishOne_samplesOnce name raw).mono fun _ hv =>
          ⟨raw, List.mem_cons_self _ _, hv⟩).bind_frames fun _ m =>
            publishAllowed_frame allowed items m hnd.1
      · have hframe : Frames n (publishOne name raw) := fun m => publishOne_frame raw hn m
        exact hframe.bind_samplesOnce fun _ => ih

/-- **Every UDP cycle is one step of each metric's counter.**  On any files,
with any allow-list and from any memory, the cycle leaves the counter of `n`
alone, or publishes for `n` once, the derivative of the value it read for `n`
against the counter's last value, and keeps that value. -/
theorem collect_samplesOnce (c : SnmpConfig) (fs : Fs) (n : List Char) :
    SamplesOnce n none (fun v => sampleOf fs n = some v) (collect c fs) := by
  unfold collect collectSnmp
  refine (readSnmp_frames _ _ fs n proc Dict.empty).bind_samplesOnce_of_returns
    (readSnmp_oblivious _ _ fs proc Dict.empty).returns fun metrics hm => ?_
  refine (publishAllowed_samplesOnce c.allowedNames n metrics.items metrics.nodup).mono ?_
  rintro v ⟨raw, hraw, hv⟩
  simp only [sampleOf, hm, (Dict.get?_eq_some_iff metrics n raw).2 hraw, Option.some_bind, hv]

/-- **A UDP run, whatever each cycle meets.**  Over any successive states of
`/proc/net/snmp`, with any allow-list and from any memory, whichever cycles
raise and whichever skip the metric `n`, the values a run publishes for `n`
and the value it leaves for it are those of the counter machine on one sample
per cycle: none, or the value the cycle read for `n`. -/
theorem run_refines_metric_counter (c : SnmpConfig) (n : List Char) (states : List Fs)
    (m : Counters) :
    ∃ samples : List (Option ℚ),
      List.Forall₂ (fun fs s => ∀ v ∈ s, sampleOf fs n = some v) states samples ∧
      (runCycles (collect c) m states).map (fun o => valuesOf n o.effects) =
        (counterRun none (m.get? n) samples).1 ∧
      (runMemory (collect c) m states).get? n = (counterRun none (m.get? n) samples).2 :=
  runCycles_refines (fun fs => collect_samplesOnce c fs n) states m

end UDPCollector

end Diamond
