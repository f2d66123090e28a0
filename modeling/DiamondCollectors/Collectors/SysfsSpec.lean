/-
DiamondCollectors/Collectors/SysfsSpec.lean

What the sysfs collectors do with every listing of their directory.

For each collector, a step lemma says what one entry amounts to
(`KSMCollector.collectItem_eq`, `KVMCollector.collectFile_eq`), and the loop
over the listing is then settled by induction.  KSM publishes, in listing
order, the entries before the first one whose `open` or read raises anything
but `ValueError`, and that exception ends the cycle
(`KSMCollector.collect_entries`).  KVM keeps one raw value per file in the
host's counter memory: a file's derivative is taken against its own last value
whatever the other files do (`KVMCollector.collectFiles_frame`,
`KVMCollector.collectFiles_at`).  Over the whole listing it publishes, in
listing order, the files before the first whose `open`, read or `float()`
raises, and that exception ends the cycle (`KVMCollector.collect_listing`); a
per-VM subdirectory in the listing is such an entry.  Over a run of cycles, as
the host schedules them, each cycle's value for a file is then the derivative
against the value the cycle before read (`KVMCollector.run_published`).
A cycle reads nothing outside its directory: a listed name is read at
`/sys/kernel/debug/kvm/<name>`, which `abspath` leaves as it is, so the cycle
depends on the file system only there (`KVMCollector.collect_local`).
-/
import DiamondCollectors.Collectors.Sysfs

namespace Diamond

/-! ### KSM: one entry -/

/-- How the loop body ends for one KSM entry. -/
inductive EntryEnd
  | skipped
  | published (v : ℚ)
  | failed (e : PyExc)
  deriving DecidableEq

namespace EntryEnd

/-- The entry ended the cycle. -/
def isFailed : EntryEnd → Bool
  | failed _ => true
  | _ => false

/-- The exception an entry ended the cycle with. -/
def failure? : EntryEnd → Option PyExc
  | failed e => some e
  | _ => none

/-- The metric an entry publishes under the name `name`. -/
def publication (name : List Char) : EntryEnd → Option Effect
  | published v => some (.publish name (.num v) .plain none)
  | _ => none

end EntryEnd

namespace KSMCollector

/-- What the loop body does with `item`: skip it when `os.access` fails; fail
with the exception `open` raises; skip it when the read raises `ValueError`,
fail with any other exception the read raises; publish the first line's value
when `float` accepts it, and skip it when not. -/
def entryEnd (fs : Fs) (item : List Char) : EntryEnd :=
  if fs.access item then
    match fs.openFile item with
    | .error e => .failed e
    | .ok f =>
      match readline f.fault readSize f.bytes with
      | .error e => if e = .valueError then .skipped else .failed e
      | .ok (line, _) =>
        match pyFloat (rstrip line) with
        | some v => .published v
        | none => .skipped
  else .skipped

/-- The effect of the loop body on one item is given by `entryEnd`. -/
theorem collectItem_eq (fs : Fs) (item : List Char) (m : Counters) :
    collectItem fs item m =
      ⟨((entryEnd fs item).publication (basename item)).toList, m,
        match (entryEnd fs item).failure? with
        | some e => .error e
        | none => .ok ()⟩ := by
  unfold collectItem entryEnd
  split
  · cases hf : fs.openFile item with
    | error e => simp [hf, EntryEnd.publication, EntryEnd.failure?]
    | ok f =>
      simp only [hf, bind_apply, lift_apply, Outcome.bind_ok, List.nil_append]
      cases hr : readline f.fault readSize f.bytes with
      | error e =>
        by_cases he : e = .valueError <;>
          simp [catching, readlineFile, hr, he, Except.map, EntryEnd.publication,
            EntryEnd.failure?]
      | ok p =>
        obtain ⟨line, rest⟩ := p
        cases hv : pyFloat (rstrip line) <;>
          simp [catching, readlineFile, hr, hv, Except.map, Option.elim, publish,
            EntryEnd.publication, EntryEnd.failure?]
  · simp [EntryEnd.publication, EntryEnd.failure?]

/-! ### KSM: the loop -/

/-- The loop over the items: the publications of the items before the first
item that fails, in order, and that item's exception. -/
theorem collectItems_eq (fs : Fs) : ∀ (items : List (List Char)) (m : Counters),
    collectItems fs items m =
      ⟨(items.takeWhile fun i => !(entryEnd fs i).isFailed).filterMap
          (fun i => (entryEnd fs i).publication (basename i)), m,
        match (items.find? fun i => (entryEnd fs i).isFailed).bind fun i => (entryEnd fs i).failure? with
        | some e => .error e
        | none => .ok ()⟩
  | [], _ => rfl
  | i :: items, m => by
    simp only [collectItems, bind_apply, collectItem_eq]
    cases h : entryEnd fs i <;>
      simp [h, EntryEnd.isFailed, EntryEnd.failure?, EntryEnd.publication,
        collectItems_eq fs items m]

/-- **Every contents of the KSM directory.**  The cycle goes through the
entries `glob` lists, in order.  It publishes `basename(item) ↦ value` for the
items whose first line `float` accepts, skips the others, and stops at the
first item whose `open` or read raises anything but `ValueError`: that
exception ends the cycle, and the items after it are not published. -/
theorem collect_entries (c : Config) (fs : Fs) (m : Counters) :
    collect c fs m =
      ⟨((globStar fs c.ksmPath).takeWhile fun i => !(entryEnd fs i).isFailed).filterMap
          (fun i => (entryEnd fs i).publication (basename i)), m,
        match ((globStar fs c.ksmPath).find? fun i => (entryEnd fs i).isFailed).bind
          fun i => (entryEnd fs i).failure? with
        | some e => .error e
        | none => .ok ()⟩ :=
  collectItems_eq fs _ m

/-- A subdirectory listed before `pages_shared` ends the cycle with `IOError`
when it is opened, so `pages_shared` is not published. -/
theorem collect_subdirectory_first :
    let fs := Fs.ofEntries
      [("/sys/kernel/mm/ksm".toList, ["sub".toList, "pages_shared".toList]),
        ("/sys/kernel/mm/ksm/sub".toList, [])]
      [("/sys/kernel/mm/ksm/pages_shared".toList, "5\n".toList)] (by decide)
    (collect defaultConfig fs Dict.empty).effects = [] ∧
      (collect defaultConfig fs Dict.empty).result = .error .ioError := by
  constructor
  · decide
  · rfl

end KSMCollector

/-! ### KVM: one file -/

namespace KVMCollector

/-- The effect of the loop body on one file: on a value, the derivative of
the file's counter against its last value, which the value replaces. -/
theorem collectFile_eq (fs : Fs) (g : List Char) (m : Counters) :
    collectFile fs g m =
      match readValue fs g with
      | .ok v => ⟨[.publish g (.num (delta (m.get? g) v (some maxValue))) .plain none],
          m.set g v, .ok ()⟩
      | .error e => ⟨[], m, .error e⟩ := by
  cases h : readValue fs g <;> simp [collectFile, h, publish]

/-- A file not in the listing: nothing is published under its name, and its
counter is left as it was. -/
theorem collectFiles_frame (fs : Fs) {f : List Char} :
    ∀ (names : List (List Char)) (m : Counters), f ∉ names →
      valuesOf f (collectFiles fs names m).effects = [] ∧
        (collectFiles fs names m).last.get? f = m.get? f
  | [], _, _ => ⟨rfl, rfl⟩
  | g :: names, m, hf => by
    have hg : f ≠ g := fun h => hf (h ▸ List.mem_cons_self _ _)
    have hrest : f ∉ names := fun h => hf (List.mem_cons_of_mem _ h)
    simp only [collectFiles, bind_apply, collectFile_eq]
    cases hv : readValue fs g with
    | error e => simp [valuesOf]
    | ok v =>
      obtain ⟨hval, hlast⟩ := collectFiles_frame fs names (m.set g v) hrest
      simp [valuesOf, hg, Ne.symm hg, hval, hlast]

/-- A file listed once, in a cycle that completes: one value is published
under its name, the derivative against its last value, and its counter is
set to the value read. -/
theorem collectFiles_at (fs : Fs) {f : List Char} {v : ℚ} (hv : readValue fs f = .ok v) :
    ∀ (names : List (List Char)) (m : Counters), names.Nodup → f ∈ names →
      (collectFiles fs names m).result = .ok () →
      valuesOf f (collectFiles fs names m).effects = [.num (delta (m.get? f) v (some maxValue))] ∧
        (collectFiles fs names m).last.get? f = some v
  | [], _, _, hf, _ => absurd hf (List.not_mem_nil _)
  | g :: names, m, hnd, hf, hok => by
    obtain ⟨hg, hnd⟩ := List.nodup_cons.mp hnd
    simp only [collectFiles, bind_apply, collectFile_eq] at hok ⊢
    cases hw : readValue fs g with
    | error e => simp [hw] at hok
    | ok w =>
      simp only [hw, Outcome.bind_ok] at hok ⊢
      by_cases hfg : f = g
      · -- the file itself: its value, then nothing more under its name
        subst hfg
        obtain rfl : w = v := by rw [hv] at hw; exact (Except.ok.inj hw).symm
        obtain ⟨hval, hlast⟩ := collectFiles_frame fs names (m.set f w) hg
        simp [valuesOf, hval, hlast]
      · -- another file first: it leaves the counter of `f` alone
        have hf' : f ∈ names := (List.mem_cons.mp hf).resolve_left hfg
        obtain ⟨hval, hlast⟩ := collectFiles_at fs hv names (m.set g w) hnd hf' hok
        simp [valuesOf, hfg, Ne.symm hfg, hval, hlast, Dict.get?_set_ne _ _ hfg]

/-- **One KVM cycle, for one counter file.**  In a cycle that completes, a file
of the debugfs listing is published once, as the derivative against its last
value, and that value becomes the one read. -/
theorem collect_at {fs : Fs} {names : List (List Char)} {f : List Char} {v : ℚ} {m : Counters}
    (hdir : fs.isdir proc = true) (hls : fs.listdir proc = .ok names) (hf : f ∈ names)
    (hok : (collect fs m).result = .ok ()) (hv : readValue fs f = .ok v) :
    valuesOf f (collect fs m).effects = [.num (delta (m.get? f) v (some maxValue))] ∧
      (collect fs m).last.get? f = some v := by
  simp only [collect, hdir, if_true, bind_apply, lift_apply, hls, Outcome.bind_ok,
    List.nil_append] at hok ⊢
  exact collectFiles_at fs hv names m (fs.listdir_valid proc names hls).1 hf hok

/-! ### KVM: the whole listing -/

/-- What a file publishes against the memory `m`: the derivative of the value
read, when the read succeeds. -/
def filePublication (fs : Fs) (m : Counters) (g : List Char) : Option Effect :=
  (readValue fs g).toOption.map fun v =>
    .publish g (.num (delta (m.get? g) v (some maxValue))) .plain none

/-- The exception the read of a file raises, if any. -/
def readFailure (fs : Fs) (g : List Char) : Option PyExc :=
  match readValue fs g with
  | .ok _ => none
  | .error e => some e

/-- The loop over a listing: the files before the first whose read raises, each
published against its own last value, and that read's exception. -/
theorem collectFiles_listing (fs : Fs) :
    ∀ (names : List (List Char)) (m : Counters), names.Nodup →
      (collectFiles fs names m).effects =
          (names.takeWhile fun g => (readFailure fs g).isNone).filterMap (filePublication fs m) ∧
        (collectFiles fs names m).result =
          match names.findSome? (readFailure fs) with
          | some e => .error e
          | none => .ok ()
  | [], _, _ => ⟨rfl, rfl⟩
  | g :: names, m, hnd => by
    obtain ⟨hg, hnd⟩ := List.nodup_cons.mp hnd
    simp only [collectFiles, bind_apply, collectFile_eq]
    cases hv : readValue fs g with
    | error e => simp [hv, readFailure]
    | ok v =>
      have hgok : readFailure fs g = none := by simp [readFailure, hv]
      -- the files after `g` read their own counters, which `g` leaves alone
      have hpub : ∀ g' ∈ names.takeWhile fun g => (readFailure fs g).isNone,
          filePublication fs (m.set g v) g' = filePublication fs m g' := fun g' h' => by
        have hne : g' ≠ g := fun e => hg (e ▸ (List.takeWhile_sublist _).subset h')
        simp [filePublication, Dict.get?_set_ne _ _ hne]
      obtain ⟨heff, hres⟩ := collectFiles_listing fs names (m.set g v) hnd
      simp only [hv, Outcome.bind_ok]
      refine ⟨?_, by simp [hres, List.findSome?_cons, hgok]⟩
      rw [heff, List.filterMap_congr hpub, List.takeWhile_cons_of_pos (by simp [hgok])]
      simp [List.filterMap_cons, filePublication, hv, Except.toOption]

/-- **Every contents of debugfs.**  When `/sys/kernel/debug/kvm` is a
directory, the cycle goes through its listing in order and publishes for each
entry the derivative of its first line against the entry's own last value,
until an entry whose `open`, read or `float` raises, such as a subdirectory or
a file whose first line is not a number.  That exception ends the cycle, and
the entries after it are not published. -/
theorem collect_listing {fs : Fs} {names : List (List Char)} (hdir : fs.isdir proc = true)
    (hls : fs.listdir proc = .ok names) (m : Counters) :
    (collect fs m).effects =
        (names.takeWhile fun g => (readFailure fs g).isNone).filterMap (filePublication fs m) ∧
      (collect fs m).result =
        match names.findSome? (readFailure fs) with
        | some e => .error e
        | none => .ok () := by
  simp only [collect, hdir, if_true, bind_apply, lift_apply, hls, Outcome.bind_ok,
    List.nil_append]
  exact collectFiles_listing fs names m (fs.listdir_valid proc names hls).1

/-- debugfs holding the per-VM directory `1234-5` and the counter file `exits`. -/
theorem collect_listing_vm :
    let fs := Fs.ofEntries
      [(proc, ["1234-5".toList, "exits".toList]), ("/sys/kernel/debug/kvm/1234-5".toList, [])]
      [("/sys/kernel/debug/kvm/exits".toList, "7\n".toList)] (by decide)
    fs.isdir proc = true ∧ fs.listdir proc = .ok ["1234-5".toList, "exits".toList] ∧
      ((collect fs Dict.empty).effects =
          (["1234-5".toList, "exits".toList].takeWhile fun g => (readFailure fs g).isNone).filterMap
            (filePublication fs Dict.empty) ∧
        (collect fs Dict.empty).result =
          match ["1234-5".toList, "exits".toList].findSome? (readFailure fs) with
          | some e => .error e
          | none => .ok ()) :=
  ⟨rfl, rfl, collect_listing rfl rfl Dict.empty⟩

/-- A per-VM directory `1234-5` listed before the counter file `exits`: `open`
raises `IOError` on it, which ends the cycle before `exits`, published when the
directory is not there.  A file `bad` whose first line is not a number ends the
cycle the same way, with `ValueError`. -/
theorem collect_vm_subdirectory :
    let files := [("/sys/kernel/debug/kvm/exits".toList, "7\n".toList),
      ("/sys/kernel/debug/kvm/bad".toList, "n/a\n".toList)]
    let withVm := Fs.ofEntries
      [(proc, ["1234-5".toList, "exits".toList]), ("/sys/kernel/debug/kvm/1234-5".toList, [])]
      files (by decide)
    let withBad := Fs.ofEntries [(proc, ["bad".toList, "exits".toList])] files (by decide)
    let alone := Fs.ofEntries [(proc, ["exits".toList])] files (by decide)
    published (collect withVm Dict.empty).effects = [] ∧
      (collect withVm Dict.empty).result = .error .ioError ∧
      published (collect withBad Dict.empty).effects = [] ∧
      (collect withBad Dict.empty).result = .error .valueError ∧
      published (collect alone Dict.empty).effects = ["exits".toList] :=
  ⟨by decide, rfl, by decide, rfl, by decide⟩

/-- The value read from a file whose open and first read succeed. -/
theorem readValue_eq {fs : Fs} {g : List Char} {f : FileText} {line rest : List Char}
    (hopen : fs.openFile (filePath g) = .ok f)
    (hline : readline f.fault readSize f.bytes = .ok (line, rest)) :
    readValue fs g = (pyFloat line).elim (.error .valueError) .ok := by
  simp [readValue, hopen, hline, bind, Except.bind]

/-- **A KVM run, for one counter file.**  Over successive states of debugfs
in each of which the cycle completes, the directory is there, and the file is
listed and reads `v₀, v₁, …`, the cycles publish for the file the derivative
of each value against the one the cycle before read: `v₀` against the value
the memory started with, then `v₁` against `v₀`, and so on. -/
theorem run_published {f : List Char} :
    ∀ (states : List Fs) (vs : List ℚ) (m : Counters),
      List.Forall₂ (fun fs v => fs.isdir proc = true ∧
        (∃ names, fs.listdir proc = .ok names ∧ f ∈ names) ∧ readValue fs f = .ok v) states vs →
      (∀ o ∈ runCycles collect m states, o.result = .ok ()) →
      (runCycles collect m states).map (fun o => valuesOf f o.effects) =
        List.zipWith (fun prev v => [.num (delta prev v (some maxValue))])
          (m.get? f :: vs.map some) vs :=
  runCycles_values fun _ _ _ ⟨hdir, ⟨_, hls, hf⟩, hv⟩ hok => collect_at hdir hls hf hok hv

/-- Two cycles in which `exits` reads 5 and then 8 publish 0 and then 3. -/
theorem run_published_exits :
    let state := fun text => Fs.ofEntries [(proc, ["exits".toList])]
      [(filePath "exits".toList, text)] (by decide)
    let states := [state "5\n".toList, state "8\n".toList]
    List.Forall₂ (fun fs v => fs.isdir proc = true ∧
        (∃ names, fs.listdir proc = .ok names ∧ "exits".toList ∈ names) ∧
        readValue fs "exits".toList = .ok v) states [5, 8] ∧
      (∀ o ∈ runCycles collect Dict.empty states, o.result = .ok ()) ∧
      (runCycles collect Dict.empty states).map (fun o => valuesOf "exits".toList o.effects) =
        List.zipWith (fun prev v => [.num (delta prev v (some maxValue))])
          ((Dict.empty : Counters).get? "exits".toList :: [5, 8].map some) [5, 8] := by
  intro state states
  have hdir : ∀ text, (state text).isdir proc = true ∧
      ∃ names, (state text).listdir proc = .ok names ∧ "exits".toList ∈ names :=
    fun _ => ⟨rfl, ["exits".toList], rfl, List.mem_singleton_self _⟩
  have h5 : readValue (state "5\n".toList) "exits".toList = .ok 5 := by
    rw [@readValue_eq _ "exits".toList (FileText.ofBytes "5\n".toList) "5\n".toList [] rfl rfl,
      pyFloat_of_digits (by decide : strip "5\n".toList = "5".toList) (by decide) (by decide)]
    rfl
  have h8 : readValue (state "8\n".toList) "exits".toList = .ok 8 := by
    rw [@readValue_eq _ "exits".toList (FileText.ofBytes "8\n".toList) "8\n".toList [] rfl rfl,
      pyFloat_of_digits (by decide : strip "8\n".toList = "8".toList) (by decide) (by decide)]
    rfl
  have hstates : List.Forall₂ (fun fs v => fs.isdir proc = true ∧
      (∃ names, fs.listdir proc = .ok names ∧ "exits".toList ∈ names) ∧
      readValue fs "exits".toList = .ok v) states [5, 8] :=
    .cons ⟨(hdir _).1, (hdir _).2, h5⟩ (.cons ⟨(hdir _).1, (hdir _).2, h8⟩ .nil)
  have hok : ∀ o ∈ runCycles collect Dict.empty states, o.result = .ok () := by
    intro o ho
    simp only [states, runCycles, List.mem_cons, List.not_mem_nil, or_false] at ho
    rcases ho with rfl | rfl <;> rfl
  exact ⟨hstates, hok, run_published states [5, 8] Dict.empty hstates hok⟩

/-! ### What a cycle reads -/

/-- The path a listed name is read from: `os.path.abspath` changes nothing,
as the name is neither empty, `.` nor `..` and holds no `/`. -/
theorem filePath_of_listed {n : List Char} (hn : n ≠ []) (hslash : '/' ∉ n) (hdot : n ≠ ['.'])
    (hdots : n ≠ ['.', '.']) : filePath n = proc ++ '/' :: n := by
  have hjoin : pathJoin proc n = proc ++ '/' :: n := by
    rw [pathJoin, if_neg (show n.head? ≠ some '/' from fun h => hslash (List.mem_of_mem_head? h)),
      if_neg (by decide)]
  have hsplit : (proc ++ '/' :: n).splitOn '/' =
      ["".toList, "sys".toList, "kernel".toList, "debug".toList, "kvm".toList] ++ [n] := by
    rw [List.splitOn, splitOnP_append_cons (by decide) proc n,
      List.splitOnP_eq_single (· == '/') n fun c hc h => hslash (beq_iff_eq.1 h ▸ hc)]
    rfl
  -- one leading `/`, and the components `sys`, `kernel`, `debug`, `kvm` and `n`
  have hinit : (if (proc ++ '/' :: n).head? = some '/' then
      (if "//".toList.isPrefixOf (proc ++ '/' :: n) ∧ !"///".toList.isPrefixOf (proc ++ '/' :: n)
        then 2 else 1) else 0) = 1 := rfl
  rw [filePath, abspath, hjoin, normpath, if_neg (by simp)]
  simp only [hsplit, List.foldl_append, hinit]
  simp [hn, hdot, hdots, proc, intercalate_cons_cons]

theorem collectFiles_congr {fs fs' : Fs} :
    ∀ {names : List (List Char)}, (∀ n ∈ names, readValue fs n = readValue fs' n) →
      collectFiles fs names = collectFiles fs' names
  | [], _ => rfl
  | n :: names, h => by
    simp only [collectFiles, collectFile, h n (List.mem_cons_self _ _),
      collectFiles_congr fun k hk => h k (List.mem_cons_of_mem _ hk)]

/-- **A KVM cycle reads only its own directory.**  Two file systems that agree
on whether `/sys/kernel/debug/kvm` is a directory, on its listing, and on
opening `/sys/kernel/debug/kvm/<name>` for each listed name give the same
cycle, from every memory: nothing outside the directory plays a part. -/
theorem collect_local {fs fs' : Fs} (hdir : fs.isdir proc = fs'.isdir proc)
    (hls : fs.listdir proc = fs'.listdir proc)
    (hopen : ∀ names, fs.listdir proc = .ok names → ∀ n ∈ names,
      fs.openFile (proc ++ '/' :: n) = fs'.openFile (proc ++ '/' :: n)) :
    collect fs = collect fs' := by
  unfold collect
  rw [← hdir, ← hls]
  split
  · cases h : fs.listdir proc with
    | error e => rfl
    | ok names =>
      -- each listed file is read at the same path in both
      have hread : ∀ n ∈ names, readValue fs n = readValue fs' n := fun n hn => by
        obtain ⟨hne, hsl, hd, hdd⟩ := (fs.listdir_valid proc names h).2 n hn
        simp only [readValue, filePath_of_listed hne hsl hd hdd, hopen names h n hn]
      funext m
      simp only [bind_apply, lift_apply, Outcome.bind_ok, collectFiles_congr hread]
  · rfl

/-- A file elsewhere, `/etc/passwd`, makes no difference. -/
theorem collect_local_passwd :
    let fs := Fs.ofEntries [(proc, ["exits".toList])] [(proc ++ "/exits".toList, "5\n".toList)]
      (by decide)
    let fs' := Fs.ofEntries [(proc, ["exits".toList]), ("/etc".toList, ["passwd".toList])]
      [(proc ++ "/exits".toList, "5\n".toList), ("/etc/passwd".toList, "root".toList)] (by decide)
    fs.isdir proc = fs'.isdir proc ∧ fs.listdir proc = fs'.listdir proc ∧
      (∀ names, fs.listdir proc = .ok names → ∀ n ∈ names,
        fs.openFile (proc ++ '/' :: n) = fs'.openFile (proc ++ '/' :: n)) ∧
      collect fs = collect fs' := by
  intro fs fs'
  have hdir : fs.isdir proc = fs'.isdir proc := by decide
  have hls : fs.listdir proc = fs'.listdir proc := rfl
  have hopen : ∀ names, fs.listdir proc = .ok names → ∀ n ∈ names,
      fs.openFile (proc ++ '/' :: n) = fs'.openFile (proc ++ '/' :: n) := by
    intro names h n hn
    cases h
    rw [List.mem_singleton.1 hn]
    rfl
  exact ⟨hdir, hls, hopen, collect_local hdir hls hopen⟩

end KVMCollector

end Diamond
