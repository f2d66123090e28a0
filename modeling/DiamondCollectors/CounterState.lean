/-
DiamondCollectors/CounterState.lean

The host's counter memory over a run of cycles, seen from one metric.  The
spec's `CounterState` keeps, per metric, the last raw value observed.  A cycle
either takes no sample of the metric and leaves its counter alone, or samples
a value `v`, reports the derivative of `v` against the last value, and keeps
`v` (`counterStep`); a run of cycles is a run of this machine (`counterRun`).

A collector's cycle is one step of the machine when, from every counter
memory, it publishes for the metric and leaves in the memory what the step
does on a sample it read (`SamplesOnce`).  Programs that leave the metric alone
(`Frames`) compose with one that samples it, one rule per combinator, so that
a loop in which the metric's entry comes once samples it at most once.  The
host runs the cycles one after another, each from the memory the one before
left, whether it returned or raised; `runCycles_refines` lifts the step to
every such run.

Programs that neither read nor change the memory (`Oblivious`) do the same
from every memory; what such a program returns is what it returns from the
empty one, which names the values a cycle reads.
-/
import DiamondCollectors.Host

namespace Diamond

variable {α β : Type}

/-! ### The counter machine -/

/-- One cycle of the spec's counter for a metric whose last value is `last`:
no sample leaves it alone; a sample `v` reports the derivative of `v` against
`last` and keeps `v`. -/
def counterStep (modulus : Option ℚ) (last : Option ℚ) : Option ℚ → List Value × Option ℚ
  | none => ([], last)
  | some v => ([.num (delta last v modulus)], some v)

/-- A run of the counter on the samples of successive cycles: what each cycle
reports, and the last value at the end. -/
def counterRun (modulus : Option ℚ) :
    Option ℚ → List (Option ℚ) → List (List Value) × Option ℚ
  | last, [] => ([], last)
  | last, s :: ss =>
    ((counterStep modulus last s).1 :: (counterRun modulus (counterStep modulus last s).2 ss).1,
      (counterRun modulus (counterStep modulus last s).2 ss).2)

/-- The counter memory a run of cycles leaves: each cycle starts from the
memory the one before left (`runCycles`). -/
def runMemory (cycle : Fs → Coll Unit) : Counters → List Fs → Counters
  | m, [] => m
  | m, fs :: rest => runMemory cycle (cycle fs m).last rest

/-! ### Programs and one counter -/

section Counter

variable (n : List Char) (modulus : Option ℚ)

/-- `x` leaves the counter `n` alone: it publishes nothing under `n` and keeps
its value. -/
def Frames (x : Coll α) : Prop :=
  ∀ m, valuesOf n (x m).effects = [] ∧ (x m).last.get? n = m.get? n

/-- `x` is one step of the counter `n`: from every memory it publishes under
`n`, and leaves for `n`, what `counterStep` does on a sample, which when
taken satisfies `reads`. -/
def SamplesOnce (reads : ℚ → Prop) (x : Coll α) : Prop :=
  ∀ m, ∃ s : Option ℚ, (∀ v ∈ s, reads v) ∧
    valuesOf n (x m).effects = (counterStep modulus (m.get? n) s).1 ∧
    (x m).last.get? n = (counterStep modulus (m.get? n) s).2

variable {n modulus} {reads reads' : ℚ → Prop}

theorem frames_pure (a : α) : Frames n (pure a : Coll α) := fun _ => ⟨rfl, rfl⟩

theorem frames_lift (r : Except PyExc α) : Frames n (lift r) := fun _ => ⟨rfl, rfl⟩

theorem frames_raise (e : PyExc) : Frames n (raise e : Coll α) := fun _ => ⟨rfl, rfl⟩

theorem frames_logError (msg : List Char) : Frames n (logError msg) := fun _ => ⟨rfl, rfl⟩

theorem frames_publish {name : List Char} (h : name ≠ n) (v : Value) (precision : Option Nat) :
    Frames n (publish name v precision) :=
  fun _ => ⟨by simp [publish, valuesOf, h], rfl⟩

theorem frames_derivative {name : List Char} (h : name ≠ n) (new : ℚ) (modulus' : Option ℚ) :
    Frames n (derivative name new modulus') :=
  fun _ => ⟨rfl, Dict.get?_set_ne _ _ (Ne.symm h)⟩

/-- What follows `x` and leaves the counter alone keeps what `x` published
for it and left for it. -/
theorem values_bind_of_frames {x : Coll α} {f : α → Coll β} (hf : ∀ a, Frames n (f a))
    (m : Counters) :
    valuesOf n ((x >>= f) m).effects = valuesOf n (x m).effects ∧
      ((x >>= f) m).last.get? n = (x m).last.get? n := by
  rw [bind_apply]
  cases h : (x m).result with
  | ok a =>
    obtain ⟨hval, hlast⟩ := hf a (x m).last
    rw [Outcome.bind_of_ok h]
    exact ⟨by simp [hval], hlast⟩
  | error e =>
    rw [Outcome.bind_of_error h]
    exact ⟨rfl, rfl⟩

theorem Frames.bind {x : Coll α} {f : α → Coll β} (hx : Frames n x)
    (hf : ∀ a, Frames n (f a)) : Frames n (x >>= f) := fun m =>
  let ⟨hval, hlast⟩ := values_bind_of_frames hf m
  ⟨hval.trans (hx m).1, hlast.trans (hx m).2⟩

/-- A program that leaves the counter alone is a step that takes no sample. -/
theorem Frames.samplesOnce {x : Coll α} (hx : Frames n x) : SamplesOnce n modulus reads x :=
  fun m => ⟨none, by simp, (hx m).1, (hx m).2⟩

theorem SamplesOnce.mono {x : Coll α} (hx : SamplesOnce n modulus reads x)
    (h : ∀ v, reads v → reads' v) : SamplesOnce n modulus reads' x := fun m =>
  let ⟨s, hs, hval, hlast⟩ := hx m
  ⟨s, fun v hv => h v (hs v hv), hval, hlast⟩

/-- A sample, then what leaves the counter alone. -/
theorem SamplesOnce.bind_frames {x : Coll α} {f : α → Coll β}
    (hx : SamplesOnce n modulus reads x) (hf : ∀ a, Frames n (f a)) :
    SamplesOnce n modulus reads (x >>= f) := fun m =>
  let ⟨s, hs, hval, hlast⟩ := hx m
  let ⟨hval', hlast'⟩ := values_bind_of_frames hf m
  ⟨s, hs, hval'.trans hval, hlast'.trans hlast⟩

/-- What leaves the counter alone, then a sample, against the same last value. -/
theorem Frames.bind_samplesOnce_of_returns {Q : α → Prop} {x : Coll α} {f : α → Coll β}
    (hx : Frames n x) (hQ : Returns Q x) (hf : ∀ a, Q a → SamplesOnce n modulus reads (f a)) :
    SamplesOnce n modulus reads (x >>= f) := by
  intro m
  obtain ⟨hval, hlast⟩ := hx m
  rw [bind_apply]
  cases h : (x m).result with
  | ok a =>
    obtain ⟨s, hs, hval', hlast'⟩ := hf a (hQ m a h) (x m).last
    rw [hlast] at hval' hlast'
    rw [Outcome.bind_of_ok h]
    exact ⟨s, hs, by simp [hval, hval'], hlast'⟩
  | error e =>
    rw [Outcome.bind_of_error h]
    exact ⟨none, by simp, hval, hlast⟩

theorem Frames.bind_samplesOnce {x : Coll α} {f : α → Coll β} (hx : Frames n x)
    (hf : ∀ a, SamplesOnce n modulus reads (f a)) : SamplesOnce n modulus reads (x >>= f) :=
  hx.bind_samplesOnce_of_returns (Q := fun _ => True) (fun _ _ _ => trivial) fun a _ => hf a

/-- After a Python call only what follows a return can sample, and it knows
what was returned. -/
theorem SamplesOnce.lift_bind {r : Except PyExc α} {f : α → Coll β}
    (hf : ∀ a, r = .ok a → SamplesOnce n modulus reads (f a)) :
    SamplesOnce n modulus reads (lift r >>= f) :=
  (frames_lift r).bind_samplesOnce_of_returns (returns_lift fun _ h => h) hf

/-- The derivative collectors' step: `derivative(n, v)`, then the result
published under `n`, samples `v`. -/
theorem samplesOnce_derivative_publish (v : ℚ) (precision : Option Nat) :
    SamplesOnce n modulus (· = v)
      (derivative n v modulus >>= fun d => publish n (.num d) precision) :=
  fun m => ⟨some v, by simp, by simp [publish, valuesOf, counterStep],
    by simp [publish, counterStep]⟩

end Counter

/-! ### Runs -/

/-- **Every run is a run of the counter machine.**  When every cycle is one
step of the counter `n`, on a sample `reads` allows for the files it runs on,
then whatever the files and whichever cycles raise, a run of cycles publishes
for `n` and leaves for it what the counter machine does on the samples the
cycles took. -/
theorem runCycles_refines {cycle : Fs → Coll Unit} {n : List Char} {modulus : Option ℚ}
    {reads : Fs → ℚ → Prop} (hcycle : ∀ fs, SamplesOnce n modulus (reads fs) (cycle fs)) :
    ∀ (states : List Fs) (m : Counters), ∃ samples : List (Option ℚ),
      List.Forall₂ (fun fs s => ∀ v ∈ s, reads fs v) states samples ∧
      (runCycles cycle m states).map (fun o => valuesOf n o.effects) =
        (counterRun modulus (m.get? n) samples).1 ∧
      (runMemory cycle m states).get? n = (counterRun modulus (m.get? n) samples).2
  | [], _ => ⟨[], .nil, rfl, rfl⟩
  | fs :: states, m => by
    obtain ⟨s, hs, hval, hlast⟩ := hcycle fs m
    obtain ⟨ss, hss, hvals, hmem⟩ := runCycles_refines hcycle states (cycle fs m).last
    rw [hlast] at hvals hmem
    exact ⟨s :: ss, .cons hs hss, by simp [runCycles, counterRun, hval, hvals],
      by simp [runMemory, counterRun, hmem]⟩

/-! ### Programs that do not read the counters -/

/-- `x` neither reads nor changes the counter memory: from every memory it
does what it does from the empty one, and leaves the memory as it was. -/
def Oblivious (x : Coll α) : Prop :=
  ∀ m, x m = ⟨(x Dict.empty).effects, m, (x Dict.empty).result⟩

theorem oblivious_pure (a : α) : Oblivious (pure a : Coll α) := fun _ => rfl

theorem oblivious_emit (e : Effect) : Oblivious (emit e) := fun _ => rfl

theorem oblivious_lift (r : Except PyExc α) : Oblivious (lift r) := fun _ => rfl

theorem Oblivious.bind {x : Coll α} {f : α → Coll β} (hx : Oblivious x)
    (hf : ∀ a, Oblivious (f a)) : Oblivious (x >>= f) := by
  intro m
  rw [bind_apply, bind_apply, hx m, hx Dict.empty]
  cases (x Dict.empty).result with
  | ok a => simp only [Outcome.bind_ok]; rw [hf a m]
  | error e => rfl

/-- Such a program returns what it returns from the empty memory. -/
theorem Oblivious.returns {x : Coll α} (hx : Oblivious x) :
    Returns (fun a => (x Dict.empty).result = .ok a) x :=
  fun m a h => by rwa [hx m] at h

end Diamond
