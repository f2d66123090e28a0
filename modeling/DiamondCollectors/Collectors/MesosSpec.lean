/-
DiamondCollectors/Collectors/MesosSpec.lean

What `MesosCGroupCollector.collect` does with a state document of the usual
shape: a `flags` object and executors whose `source` has four dot-separated
parts.

`get_containers` then returns the dict `containersOf flags execs`: `'flags'`
first, then each executor in document order, a repeated container ID keeping
the last executor's names (`getContainers_of_shape`).  A subdirectory whose
name is not a key of that dict contributes nothing (`collectTask_skip`); one
whose name is an executor's container ID is published under that executor's
names (`collectTask_executor`).  No step touches the host's counters
(`collectTask_keeps`), so an aspect amounts to its subdirectories that are keys
of the dict, in listing order, up to the first that raises
(`collectAspect_eq`).  The dict shares its keys between the flags and
the container IDs, so a subdirectory named `flags` reads the flags object as if
it were an executor, and an executor whose container ID is `flags` hides the
flags from `collect`.

A failed fetch of the document is not a cycle without tasks: `HTTPError` and
`ValueError` are logged and give `{}`, whose missing `flags` then raises
`KeyError`, and any other exception leaves `collect` as it is
(`collect_failed_fetch`).
-/
import DiamondCollectors.Collectors.Mesos

namespace Diamond

namespace MesosCGroupCollector

/-! ### The state document -/

/-- The entry of an executor whose `source` splits into four parts at `.`.
(It is only taken of such sources.) -/
def entryOf (source : List Char) : Entry :=
  match source.splitOn '.' with
  | [role, environment, task, number] => .executor role environment task number
  | _ => .flags .null

/-- A framework whose executors, in order, have the container IDs and sources
`execs`. -/
def FrameworkShape (framework : Json) (execs : List (List Char × List Char)) : Prop :=
  ∃ xs, framework.getItem "executors".toList = .ok (.arr xs) ∧
    List.Forall₂ (fun x e => x.getItem "container".toList = .ok (.str e.1) ∧
      x.getItem "source".toList = .ok (.str e.2)) xs execs

/-- A state document with the member `flags` and the executors `execs`, in
document order: no `frameworks` member, or a list of frameworks. -/
def StateShape (doc flags : Json) (execs : List (List Char × List Char)) : Prop :=
  doc.getItem "flags".toList = .ok flags ∧
    ((doc.contains "frameworks".toList = .ok false ∧ execs = []) ∨
      ∃ fws execss, doc.contains "frameworks".toList = .ok true ∧
        doc.getItem "frameworks".toList = .ok (.arr fws) ∧
        List.Forall₂ FrameworkShape fws execss ∧ execs = execss.flatten)

/-- The `containers` dict of such a document. -/
def containersOf (flags : Json) (execs : List (List Char × List Char)) : Containers :=
  (Dict.empty.set "flags".toList (.flags flags)).setAll (execs.map fun e => (e.1, entryOf e.2))

theorem addExecutors_of_shape {xs : List Json} {execs : List (List Char × List Char)}
    (hxs : List.Forall₂ (fun x e => x.getItem "container".toList = .ok (.str e.1) ∧
      x.getItem "source".toList = .ok (.str e.2)) xs execs)
    (hsrc : ∀ e ∈ execs, (e.2.splitOn '.').length = 4) (containers : Containers) :
    addExecutors containers xs = .ok (containers.setAll (execs.map fun e => (e.1, entryOf e.2))) := by
  induction hxs generalizing containers with
  | nil => rfl
  | @cons x e xs execs hx _ ih =>
    obtain ⟨hc, hs⟩ := hx
    have hlen := hsrc e (List.mem_cons_self _ _)
    have hstep : addExecutor containers x = .ok (containers.set e.1 (entryOf e.2)) := by
      unfold addExecutor entryOf
      rw [hc, hs]
      match hp : e.2.splitOn '.', hlen with
      | [role, environment, task, number], _ =>
        simp [hp, bind, Except.bind, setContainer]
    simp only [addExecutors, hstep, Except.bind, ih (fun e' h => hsrc e' (List.mem_cons_of_mem _ h))]
    rfl

theorem addFrameworks_of_shape {fws : List Json} {execss : List (List (List Char × List Char))}
    (hfws : List.Forall₂ FrameworkShape fws execss)
    (hsrc : ∀ e ∈ execss.flatten, (e.2.splitOn '.').length = 4) (containers : Containers) :
    addFrameworks containers fws =
      .ok (containers.setAll (execss.flatten.map fun e => (e.1, entryOf e.2))) := by
  induction hfws generalizing containers with
  | nil => rfl
  | @cons fw execs fws execss hfw _ ih =>
    obtain ⟨xs, hex, hxs⟩ := hfw
    have hsrc' : ∀ e ∈ execs, (e.2.splitOn '.').length = 4 :=
      fun e h => hsrc e (List.mem_flatten_of_mem (List.mem_cons_self _ _) h)
    have hrest : ∀ e ∈ execss.flatten, (e.2.splitOn '.').length = 4 :=
      fun e h => hsrc e (by simp only [List.flatten_cons, List.mem_append]; exact .inr h)
    simp only [addFrameworks, hex, Json.iter_arr, bind, Except.bind,
      addExecutors_of_shape hxs hsrc', ih hrest]
    simp [Dict.setAll, List.foldl_append]

/-- **The `containers` dict of a state document.**  `get_containers` puts the
flags under `'flags'`, then each executor under its container ID, in document
order. -/
theorem getContainers_of_shape {c : Config} {http : Http} {doc flags : Json}
    {execs : List (List Char × List Char)} (hhttp : http (stateUrl c) = .ok doc)
    (hshape : StateShape doc flags execs) (hsrc : ∀ e ∈ execs, (e.2.splitOn '.').length = 4)
    (m : Counters) : getContainers c http m = ⟨[], m, .ok (containersOf flags execs)⟩ := by
  obtain ⟨hflags, ⟨hno, rfl⟩ | ⟨fws, execss, hyes, hfw, hshape', rfl⟩⟩ := hshape
  · simp [getContainers, getMesosState, hhttp, hflags, hno, containersOf, Dict.setAll,
      -String.toList]
  · simp [getContainers, getMesosState, hhttp, hflags, hyes, hfw,
      addFrameworks_of_shape hshape' hsrc, containersOf, -String.toList]

/-- The entry of a name: the last executor with that container ID, else the
flags for `'flags'`. -/
theorem get?_containersOf (flags : Json) (execs : List (List Char × List Char)) (d : List Char) :
    (containersOf flags execs).get? d =
      (((Dict.ofList execs).get? d).map entryOf).or
        (if d = "flags".toList then some (.flags flags) else none) := by
  rw [containersOf, Dict.get?_setAll, Dict.get?_set, Dict.get?_empty, Dict.get?_ofList,
    ← List.map_reverse, Dict.lookup_map_snd]

/-! ### One subdirectory -/

/-- A subdirectory whose name is not a key of `containers` is skipped. -/
theorem collectTask_skip {fs : Fs} {containers : Containers} {aspect aspectPath d : List Char}
    (hd : containers.contains d = false) (m : Counters) :
    collectTask fs containers aspect aspectPath d m = ⟨[], m, .ok ()⟩ := by
  simp [collectTask, hd]

/-- A subdirectory whose entry is an executor's is published under the
executor's environment, role, task and id. -/
theorem collectTask_executor {fs : Fs} {containers : Containers} {aspect aspectPath d : List Char}
    {role environment task number : List Char}
    (hd : containers.get? d = some (.executor role environment task number)) :
    collectTask fs containers aspect aspectPath d =
      publishTask fs aspect (pathJoin aspectPath d)
        [.str environment, .str role, .str task, .str number, .str aspect] := by
  have hc : containers.contains d = true := by
    simp only [Dict.contains, decide_eq_true_eq]
    exact (Dict.get?_isSome_iff _ _).1 (by rw [hd]; rfl)
  funext m
  simp [collectTask, hc, lookupEntry, hd, Entry.getItem]

/-- The keys of the dict: `'flags'` and the executors' container IDs. -/
theorem contains_containersOf (flags : Json) (execs : List (List Char × List Char))
    (d : List Char) :
    (containersOf flags execs).contains d = true ↔ d ∈ execs.map Prod.fst ∨ d = "flags".toList := by
  simp [Dict.contains, containersOf, Function.comp_def]

/-! ### One aspect -/

theorem publishStatLines_keeps (parts : List Json) :
    ∀ lines, Keeps (publishStatLines parts lines)
  | [] => keeps_pure ()
  | line :: lines => by
    unfold publishStatLines
    dsimp only
    split
    · exact (keeps_lift _).bind fun _ => (keeps_emit _).bind fun _ =>
        publishStatLines_keeps parts lines
    · exact (keeps_raise _).bind fun _ => publishStatLines_keeps parts lines

theorem publishTask_keeps (fs : Fs) (aspect taskPath : List Char) (parts : List Json) :
    Keeps (publishTask fs aspect taskPath parts) := by
  unfold publishTask
  dsimp only
  split
  · refine (keeps_lift _).bind fun _ => (keeps_lift _).bind fun r => ?_
    exact (keeps_lift _).bind fun _ => (keeps_emit _).bind fun _ =>
      (keeps_lift _).bind fun _ => (keeps_lift _).bind fun data => publishStatLines_keeps parts data
  · exact (keeps_pure _).bind fun _ =>
      (keeps_lift _).bind fun _ => (keeps_lift _).bind fun data => publishStatLines_keeps parts data

theorem collectTask_keeps (fs : Fs) (containers : Containers) (aspect aspectPath : List Char)
    (taskId : List Char) : Keeps (collectTask fs containers aspect aspectPath taskId) := by
  unfold collectTask
  dsimp only
  split
  · exact keeps_pure ()
  · exact (keeps_pure _).bind fun _ => (keeps_lift _).bind fun _ => (keeps_lift _).bind fun _ =>
      (keeps_lift _).bind fun _ => (keeps_lift _).bind fun _ => (keeps_lift _).bind fun _ =>
      publishTask_keeps _ _ _ _

/-- One aspect: the subdirectories of its path that are keys of `containers`,
in listing order, up to the first that raises. -/
theorem collectAspect_eq {fs : Fs} {containers : Containers} {base root aspect : List Char}
    {names : List (List Char)} (hls : fs.listdir (pathJoin (pathJoin base aspect) root) = .ok names)
    (m : Counters) :
    collectAspect fs containers (.str base) (.str root) aspect m =
      ⟨(runSteps (collectTask fs containers aspect (pathJoin (pathJoin base aspect) root)) m
          (names.filter fun n => containers.contains n &&
            fs.isdir (pathJoin (pathJoin (pathJoin base aspect) root) n))).1, m,
        (runSteps (collectTask fs containers aspect (pathJoin (pathJoin base aspect) root)) m
          (names.filter fun n => containers.contains n &&
            fs.isdir (pathJoin (pathJoin (pathJoin base aspect) root) n))).2⟩ := by
  simp only [collectAspect, pathPart, bind_apply, lift_apply, Outcome.bind_ok, List.nil_append, hls,
    forEach_eq (fun x => collectTask_keeps fs containers aspect _ x), ← List.filter_filter,
    runSteps_filter containers.contains fun d hd => collectTask_skip hd m]

/-! ### The cycle -/

/-- The entry under `'flags'`: the flags, unless an executor's container ID is
`flags`. -/
theorem lookupEntry_flags (flags : Json) {execs : List (List Char × List Char)}
    (hsrc : ∀ e ∈ execs, (e.2.splitOn '.').length = 4) :
    ("flags".toList ∈ execs.map Prod.fst ∧ ∃ role environment task number,
      lookupEntry (containersOf flags execs) "flags".toList =
        .ok (.executor role environment task number)) ∨
      ("flags".toList ∉ execs.map Prod.fst ∧
        lookupEntry (containersOf flags execs) "flags".toList = .ok (.flags flags)) := by
  cases hget : (Dict.ofList execs).get? "flags".toList with
  | none =>
    have hnot : "flags".toList ∉ execs.map Prod.fst := fun h => by
      rw [← Dict.mem_keys_ofList, ← Dict.get?_isSome_iff, hget] at h
      cases h
    exact .inr ⟨hnot, by simp [lookupEntry, get?_containersOf, hget, -String.toList]⟩
  | some src =>
    have hmem := Dict.mem_of_get?_ofList hget
    have hlen := hsrc _ hmem
    refine .inl ⟨List.mem_map_of_mem Prod.fst hmem, ?_⟩
    match hp : src.splitOn '.', hlen with
    | [role, environment, task, number], _ =>
      exact ⟨role, environment, task, number, by
        simp [lookupEntry, get?_containersOf, hget, entryOf, hp, -String.toList]⟩

/-- `collect` on a state document of the usual shape: an executor whose
container ID is `flags` hides the flags, and `collect` raises `KeyError`;
otherwise it goes through the aspects with the document's hierarchy and root. -/
theorem collect_of_shape {c : Config} {http : Http} {fs : Fs} {doc flags : Json}
    {execs : List (List Char × List Char)} {h r : List Char}
    (hhttp : http (stateUrl c) = .ok doc) (hshape : StateShape doc flags execs)
    (hsrc : ∀ e ∈ execs, (e.2.splitOn '.').length = 4)
    (hh : flags.getItem "cgroups_hierarchy".toList = .ok (.str h))
    (hr : flags.getItem "cgroups_root".toList = .ok (.str r)) (m : Counters) :
    collect c http fs m =
      if "flags".toList ∈ execs.map Prod.fst then ⟨[], m, .error .keyError⟩
      else forEach (collectAspect fs (containersOf flags execs) (.str h) (.str r)) aspects m := by
  simp only [collect, bind_apply, getContainers_of_shape hhttp hshape hsrc m, Outcome.bind_ok,
    List.nil_append, lift_apply]
  rcases lookupEntry_flags flags hsrc with ⟨hf, role, environment, task, number, he⟩ | ⟨hnot, he⟩
  · have hkey : (Entry.executor role environment task number).getItem "cgroups_hierarchy".toList =
        .error .keyError := rfl
    simp [he, hf, hkey, -String.toList]
  · simp [he, hnot, Entry.getItem, hh, hr, -String.toList]

/-- **Which subdirectories are published, and under which names.**  Take a
state document with flags holding string `cgroups_hierarchy` and
`cgroups_root`, and executors whose sources have four dot-separated parts.
`collect` raises `KeyError` when an executor's container ID is `flags`, and
otherwise goes through the aspects.  A subdirectory that is neither `flags` nor
an executor's container ID is skipped, with no effect and no error; one that is
a container ID is published under the environment, role, task and id of the
last executor with that ID. -/
theorem collect_subdirectories {c : Config} {http : Http} {fs : Fs} {doc flags : Json}
    {execs : List (List Char × List Char)} {h r : List Char}
    (hhttp : http (stateUrl c) = .ok doc) (hshape : StateShape doc flags execs)
    (hsrc : ∀ e ∈ execs, (e.2.splitOn '.').length = 4)
    (hh : flags.getItem "cgroups_hierarchy".toList = .ok (.str h))
    (hr : flags.getItem "cgroups_root".toList = .ok (.str r)) (m : Counters) :
    (collect c http fs m =
      if "flags".toList ∈ execs.map Prod.fst then ⟨[], m, .error .keyError⟩
      else forEach (collectAspect fs (containersOf flags execs) (.str h) (.str r)) aspects m) ∧
    (∀ aspect aspectPath d m', d ∉ execs.map Prod.fst → d ≠ "flags".toList →
      collectTask fs (containersOf flags execs) aspect aspectPath d m' = ⟨[], m', .ok ()⟩) ∧
    (∀ aspect aspectPath d source role environment task number,
      (Dict.ofList execs).get? d = some source →
      source.splitOn '.' = [role, environment, task, number] →
      collectTask fs (containersOf flags execs) aspect aspectPath d =
        publishTask fs aspect (pathJoin aspectPath d)
          [.str environment, .str role, .str task, .str number, .str aspect]) := by
  refine ⟨collect_of_shape hhttp hshape hsrc hh hr m, ?_, ?_⟩
  · intro aspect aspectPath d m' hd hf
    refine collectTask_skip (Bool.eq_false_iff.2 fun hc => ?_) m'
    exact ((contains_containersOf flags execs d).1 hc).elim hd hf
  · intro aspect aspectPath d source role environment task number hget hp
    exact collectTask_executor (by rw [get?_containersOf, hget]; simp [entryOf, hp])

theorem collect_subdirectories_c1 :
    let flags : Json := .obj [("cgroups_hierarchy".toList, .str "/sys/fs/cgroup".toList),
      ("cgroups_root".toList, .str "mesos".toList)]
    let doc : Json := .obj [("flags".toList, flags), ("frameworks".toList, .arr [.obj
      [("executors".toList, .arr [.obj [("container".toList, .str "c1".toList),
        ("source".toList, .str "role.env.task.0".toList)]])]])]
    let execs := [("c1".toList, "role.env.task.0".toList)]
    let http : Http := fun _ => .ok doc
    let fs := Fs.withFile "/sys/fs/cgroup/cpu/mesos".toList []
    http (stateUrl defaultConfig) = .ok doc ∧ StateShape doc flags execs ∧
      (∀ e ∈ execs, (e.2.splitOn '.').length = 4) ∧
      flags.getItem "cgroups_hierarchy".toList = .ok (.str "/sys/fs/cgroup".toList) ∧
      flags.getItem "cgroups_root".toList = .ok (.str "mesos".toList) ∧
      (collect defaultConfig http fs Dict.empty =
        if "flags".toList ∈ execs.map Prod.fst then ⟨[], Dict.empty, .error .keyError⟩
        else forEach (collectAspect fs (containersOf flags execs) (.str "/sys/fs/cgroup".toList)
          (.str "mesos".toList)) aspects Dict.empty) ∧
      (∀ aspect aspectPath d m', d ∉ execs.map Prod.fst → d ≠ "flags".toList →
        collectTask fs (containersOf flags execs) aspect aspectPath d m' = ⟨[], m', .ok ()⟩) ∧
      (∀ aspect aspectPath d source role environment task number,
        (Dict.ofList execs).get? d = some source →
        source.splitOn '.' = [role, environment, task, number] →
        collectTask fs (containersOf flags execs) aspect aspectPath d =
          publishTask fs aspect (pathJoin aspectPath d)
            [.str environment, .str role, .str task, .str number, .str aspect]) :=
  by
  intro flags doc execs http fs
  have hshape : StateShape doc flags execs :=
    ⟨rfl, .inr ⟨_, [execs], rfl, rfl, .cons ⟨_, rfl, .cons ⟨rfl, rfl⟩ .nil⟩ .nil, rfl⟩⟩
  have hsrc : ∀ e ∈ execs, (e.2.splitOn '.').length = 4 := by decide
  exact ⟨rfl, hshape, hsrc, rfl, rfl,
    collect_subdirectories rfl hshape hsrc rfl rfl Dict.empty⟩

/-- The cgroup tree holds a subdirectory named `flags`, listed before the
container `c1`: `collect` raises `KeyError`, since the flags have no
`environment`, and publishes nothing, not even for `c1`, which is published
when `flags` is not there. -/
theorem collect_flags_subdirectory :
    let http : Http := fun _ => .ok (.obj [("flags".toList, .obj
      [("cgroups_hierarchy".toList, .str "/sys/fs/cgroup".toList),
        ("cgroups_root".toList, .str "mesos".toList)]),
      ("frameworks".toList, .arr [.obj [("executors".toList, .arr [.obj
        [("container".toList, .str "c1".toList), ("source".toList, .str "role.env.task.0".toList)]])]])])
    let files := [("/sys/fs/cgroup/cpuacct/mesos/c1/cpuacct.usage".toList, "123\n".toList),
      ("/sys/fs/cgroup/cpuacct/mesos/c1/cpuacct.stat".toList, "user 5\n".toList)]
    let withFlags := Fs.ofEntries
      [("/sys/fs/cgroup/cpuacct/mesos".toList, ["flags".toList, "c1".toList]),
        ("/sys/fs/cgroup/cpuacct/mesos/flags".toList, []), ("/sys/fs/cgroup/cpuacct/mesos/c1".toList, []),
        ("/sys/fs/cgroup/cpu/mesos".toList, []), ("/sys/fs/cgroup/memory/mesos".toList, [])]
      files (by decide)
    let withoutFlags := Fs.ofEntries
      [("/sys/fs/cgroup/cpuacct/mesos".toList, ["c1".toList]),
        ("/sys/fs/cgroup/cpuacct/mesos/c1".toList, []),
        ("/sys/fs/cgroup/cpu/mesos".toList, []), ("/sys/fs/cgroup/memory/mesos".toList, [])]
      files (by decide)
    published (collect defaultConfig http withFlags Dict.empty).effects = [] ∧
      (collect defaultConfig http withFlags Dict.empty).result.toBool = false ∧
      published (collect defaultConfig http withoutFlags Dict.empty).effects =
        ["env.role.task.0.cpuacct.usage".toList, "env.role.task.0.cpuacct.user".toList] := by
  decide

/-! ### A failed fetch -/

/-- A failed fetch of the state document: `get_containers` raises, `KeyError`
for `flags` after logging a failure `get_mesos_state` catches, the fetch's own
exception otherwise. -/
theorem getContainers_failed {c : Config} {http : Http} {e : PyExc} {text : List Char}
    (hfail : http (stateUrl c) = .error (e, text)) (m : Counters) :
    getContainers c http m =
      if e = .httpError ∨ e = .valueError then
        ⟨[.log .error (readErrorMsg text)], m, .error .keyError⟩
      else ⟨[], m, .error e⟩ := by
  by_cases he : e = .httpError ∨ e = .valueError
  · simp [getContainers, getMesosState, hfail, he, logError]
  · simp [getContainers, getMesosState, hfail, he]

/-- **A failed fetch ends the cycle.**  Whatever exception fetching the state
document raises, and whatever its text, `collect` publishes nothing and raises.
An `HTTPError`, or a body that is not JSON (`ValueError`), is logged and
`get_mesos_state` returns `{}`, whose missing `flags` makes `get_containers`
raise `KeyError`; any other exception, such as the `URLError` of a connection
that cannot be made, leaves `get_mesos_state` without a log line. -/
theorem collect_failed_fetch (c : Config) {http : Http} {e : PyExc} {text : List Char}
    (hfail : http (stateUrl c) = .error (e, text)) (fs : Fs) (m : Counters) :
    collect c http fs m =
      if e = .httpError ∨ e = .valueError then
        ⟨[.log .error (readErrorMsg text)], m, .error .keyError⟩
      else ⟨[], m, .error e⟩ := by
  rw [collect, bind_apply, getContainers_failed hfail m]
  split <;> rfl

theorem collect_failed_fetch_http500 :
    let http : Http := fun _ => .error (.httpError, "HTTP Error 500".toList)
    http (stateUrl defaultConfig) = .error (.httpError, "HTTP Error 500".toList) ∧
      collect defaultConfig http (Fs.withFile [] []) Dict.empty =
        if PyExc.httpError = .httpError ∨ PyExc.httpError = .valueError then
          ⟨[.log .error (readErrorMsg "HTTP Error 500".toList)], Dict.empty, .error .keyError⟩
        else ⟨[], Dict.empty, .error .httpError⟩ :=
  ⟨rfl, collect_failed_fetch defaultConfig rfl _ Dict.empty⟩

/-- The agent answers `500`: the cycle logs the failure, publishes nothing and
raises (`KeyError`); the agent cannot be reached: nothing is logged and the
`URLError` leaves `collect`. -/
theorem collect_http_error :
    let run := fun r => collect defaultConfig (fun _ => .error r) (Fs.withFile [] []) Dict.empty
    published (run (.httpError, "HTTP Error 500".toList)).effects = [] ∧
      errors (run (.httpError, "HTTP Error 500".toList)).effects =
        [readErrorMsg "HTTP Error 500".toList] ∧
      (run (.httpError, "HTTP Error 500".toList)).result.toBool = false ∧
      (run (.urlError, "Connection refused".toList)).effects = [] ∧
      (run (.urlError, "Connection refused".toList)).result.toBool = false := by
  decide

end MesosCGroupCollector

end Diamond
