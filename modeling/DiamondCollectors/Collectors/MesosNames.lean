/-
DiamondCollectors/Collectors/MesosNames.lean

The names `MesosCGroupCollector.collect` publishes under, for every state
document and every cgroup tree.  A series is an executor's `source`, an
aspect and a metric key: `usage` for `cpuacct.usage`, or a key of
`<aspect>.stat`.  It is published as

    clean_up('.'.join([environment, role, task, id, aspect, key]))

(`seriesName`), where the source is `role.environment.task.id`.  `IsSeries`
says which series one cycle can publish on a document: the four-part source
of one of its executors, an aspect, and `usage` or a key of that executor's
`<aspect>.stat` under the flags' hierarchy and root.

Whatever the document, `get_containers` puts in its dict only the flags,
under `'flags'`, and the names of four-part sources, under their executors'
container IDs (`getContainers_returns`, one lemma per loop).  So every name a
cycle publishes is the name of a series, when the cgroup tree has no
subdirectory `flags`, which would read the flags as an executor
(`collect_publishesOnly_series`, through the rules of `PublishesOnly`, one
lemma per function).  When no source and no stat key holds a `/`, the name
determines the series (`seriesName_inj`): `clean_up` then changes nothing, and
`split('.')` recovers the five parts before the key, which hold no `.`, and
then the pieces of the key, so a key may hold `.`s.  Together, each name a
cycle publishes names exactly one series (`collect_names_injective`).

Without these conditions names meet.  `clean_up` turns a `/` into a `.`, so
the sources `r.e/f.t.1` and `f.e.r.t/1` are both published under
`e.f.r.t.1`, and so are the stat keys `a/b` and `a.b` of one file
(`collect_names_collide`).

The stat loop itself is characterised on every text of a `*.stat` file: it
publishes the lines up to the first one `split()` does not cut in two, and
that line raises `ValueError`, which nothing in `collect` catches
(`publishStatLines_eq`).
-/
import DiamondCollectors.Collectors.MesosSpec

namespace Diamond

namespace MesosCGroupCollector

/-! ### Series and their names -/

/-- A series `collect` publishes: an executor's `source`, an aspect and a
metric key. -/
structure Series where
  source : List Char
  aspect : List Char
  key : List Char
  deriving DecidableEq

/-- `key_parts` without the aspect, `[environment, role, task, id]`, for the
executor of `source = role.environment.task.id`. -/
def keyParts (source : List Char) : List (List Char) :=
  match source.splitOn '.' with
  | [role, environment, task, number] => [environment, role, task, number]
  | _ => []

/-- `clean_up('.'.join(key_parts + [key]))` -/
def seriesName (t : Series) : List Char :=
  cleanUp (['.'].intercalate (keyParts t.source ++ [t.aspect, t.key]))

/-- The keys of the lines of a `*.stat` file: the first of the two fields of
each line that `split()` cuts in two. -/
def statKeys (lines : List (List Char)) : List (List Char) :=
  lines.filterMap fun line => match split line with
    | [key, _] => some key
    | _ => none

/-- The `<aspect>.stat` of container `d`, under hierarchy `h` and root `r`. -/
def statPath (h r aspect d : List Char) : List Char :=
  pathJoin (pathJoin (pathJoin (pathJoin h aspect) r) d) (aspect ++ ".stat".toList)

/-- The items `for x in v[k]` goes through; none when `v[k]` or the iteration
raises. -/
def itemsOf (v : Json) (k : List Char) : List Json :=
  match (v.getItem k).bind Json.iter with
  | .ok xs => xs
  | .error _ => []

/-- The executors of a state document, framework by framework. -/
def executorsOf (doc : Json) : List Json :=
  (itemsOf doc "frameworks".toList).flatMap fun fw => itemsOf fw "executors".toList

/-- The container ID and `source` of each executor whose two are strings. -/
def executorIds (doc : Json) : List (List Char × List Char) :=
  (executorsOf doc).filterMap fun x =>
    match x.getItem "container".toList, x.getItem "source".toList with
    | .ok (.str d), .ok (.str source) => some (d, source)
    | _, _ => none

/-- The hierarchy and root of the document's flags, when both are strings. -/
def flagsPaths (doc : Json) : Option (List Char × List Char) :=
  match doc.getItem "flags".toList with
  | .ok flags =>
    match flags.getItem "cgroups_hierarchy".toList, flags.getItem "cgroups_root".toList with
    | .ok (.str h), .ok (.str r) => some (h, r)
    | _, _ => none
  | .error _ => none

/-- `t` is a series one cycle can publish on the document `doc` and the tree
`fs`: `t.source`, of four parts, is the source of an executor with container
ID `d`, and `t.key` is `usage` for `cpuacct`, or a key of `d`'s
`<aspect>.stat` under the flags' hierarchy and root. -/
def IsSeries (doc : Json) (fs : Fs) (t : Series) : Prop :=
  t.aspect ∈ aspects ∧ (t.source.splitOn '.').length = 4 ∧
    ∃ h r d, flagsPaths doc = some (h, r) ∧ (d, t.source) ∈ executorIds doc ∧
      ((t.aspect = "cpuacct".toList ∧ t.key = "usage".toList) ∨
        ∃ f, fs.openFile (statPath h r t.aspect d) = .ok f ∧ t.key ∈ statKeys (readlines f.bytes))

theorem mapM_namePart_strs :
    ∀ ss : List (List Char), (ss.map Json.str).mapM namePart = .ok ss
  | [] => rfl
  | s :: ss => by
    simp only [List.map_cons, List.mapM_cons, mapM_namePart_strs ss]
    rfl

theorem joinNames_strs (ss : List (List Char)) :
    joinNames (ss.map .str) = .ok (['.'].intercalate ss) := by
  simp only [joinNames, mapM_namePart_strs]
  rfl

/-- The name `collect` publishes for the key `key` of an aspect of the
executor of `source` is the series' name. -/
theorem seriesName_of_joinNames {source aspect key name : List Char}
    (h : joinNames ((keyParts source ++ [aspect]).map .str ++ [.str key]) = .ok name) :
    seriesName ⟨source, aspect, key⟩ = cleanUp name := by
  rw [← List.map_singleton, ← List.map_append, List.append_assoc, List.singleton_append,
    joinNames_strs] at h
  cases h
  rfl

theorem mem_statKeys_cons {key line : List Char} {lines : List (List Char)}
    (h : key ∈ statKeys lines) : key ∈ statKeys (line :: lines) :=
  ((List.sublist_cons_self line lines).filterMap _).subset h

theorem mem_itemsOf {v x : Json} {k : List Char} {xs : List Json}
    (h : (v.getItem k).bind Json.iter = .ok xs) (hx : x ∈ xs) : x ∈ itemsOf v k := by
  rw [itemsOf, h]
  exact hx

theorem mem_executorIds {doc x : Json} {d source : List Char} (hx : x ∈ executorsOf doc)
    (hd : x.getItem "container".toList = .ok (.str d))
    (hs : x.getItem "source".toList = .ok (.str source)) : (d, source) ∈ executorIds doc :=
  List.mem_filterMap.2 ⟨x, hx, by rw [hd, hs]⟩

/-! ### The `containers` dict -/

/-- What `get_containers` can put in its dict for `doc`: the flags under
`'flags'`, and under an executor's container ID the names of its source, of
four parts. -/
def EntriesOf (doc : Json) (containers : Containers) : Prop :=
  ∀ d e, containers.get? d = some e →
    (d = "flags".toList ∧ ∃ flags, doc.getItem "flags".toList = .ok flags ∧ e = .flags flags) ∨
      ∃ source, (d, source) ∈ executorIds doc ∧ (source.splitOn '.').length = 4 ∧ e = entryOf source

theorem entriesOf_flags {doc flags : Json} (h : doc.getItem "flags".toList = .ok flags) :
    EntriesOf doc (Dict.empty.set "flags".toList (.flags flags)) := by
  intro d e he
  rw [Dict.get?_set, Dict.get?_empty] at he
  split at he
  · exact .inl ⟨‹_›, flags, h, (Option.some.inj he).symm⟩
  · cases he

theorem EntriesOf.set {doc : Json} {c : Containers} (hc : EntriesOf doc c) {d source : List Char}
    (hmem : (d, source) ∈ executorIds doc) (h4 : (source.splitOn '.').length = 4) :
    EntriesOf doc (c.set d (entryOf source)) := by
  intro d' e he
  rw [Dict.get?_set] at he
  split at he
  · next hd =>
    subst hd
    exact .inr ⟨source, hmem, h4, (Option.some.inj he).symm⟩
  · exact hc d' e he

/-- One executor: its names go under its container ID when that is a string,
and nowhere else. -/
theorem addExecutor_entries {doc x : Json} {c c' : Containers} (hx : x ∈ executorsOf doc)
    (hc : EntriesOf doc c) (h : addExecutor c x = .ok c') : EntriesOf doc c' := by
  unfold addExecutor at h
  simp only [bind, Except.bind] at h
  split at h
  · cases h
  next container hcon =>
  split at h
  · cases h
  next sourceJ hsrc =>
  split at h
  · cases h
  next parts hsplit =>
  split at h
  · next role environment task number =>
    cases sourceJ <;> simp only [Json.split, Except.ok.injEq, reduceCtorEq] at hsplit
    next s =>
    have hent : Entry.executor role environment task number = entryOf s := by
      simp [entryOf, hsplit]
    cases container <;> simp only [setContainer, Except.ok.injEq, reduceCtorEq] at h <;> subst h
    case str k =>
      rw [hent]
      exact hc.set (mem_executorIds hx hcon hsrc) (by rw [hsplit]; rfl)
    all_goals exact hc
  · cases h

theorem addExecutors_entries {doc : Json} :
    ∀ {xs : List Json} {c c' : Containers}, (∀ x ∈ xs, x ∈ executorsOf doc) →
      EntriesOf doc c → addExecutors c xs = .ok c' → EntriesOf doc c'
  | [], _, _, _, hc, h => by
    cases h
    exact hc
  | x :: _, c, _, hxs, hc, h => by
    cases hx : addExecutor c x with
    | error e =>
      rw [addExecutors, hx] at h
      cases h
    | ok c₁ =>
      rw [addExecutors, hx] at h
      exact addExecutors_entries (fun y hy => hxs y (List.mem_cons_of_mem _ hy))
        (addExecutor_entries (hxs x (List.mem_cons_self _ _)) hc hx) h

theorem addFrameworks_entries {doc : Json} :
    ∀ {fws : List Json} {c c' : Containers},
      (∀ fw ∈ fws, ∀ x ∈ itemsOf fw "executors".toList, x ∈ executorsOf doc) →
      EntriesOf doc c → addFrameworks c fws = .ok c' → EntriesOf doc c'
  | [], _, _, _, hc, h => by
    cases h
    exact hc
  | fw :: _, _, _, hfws, hc, h => by
    simp only [addFrameworks, bind, Except.bind] at h
    split at h
    · cases h
    next xsJ hxsJ =>
    split at h
    · cases h
    next xs hxs =>
    split at h
    · cases h
    next c₁ hc₁ =>
    refine addFrameworks_entries (fun fw' h' => hfws fw' (List.mem_cons_of_mem _ h')) ?_ h
    refine addExecutors_entries (fun x hx => ?_) hc hc₁
    exact hfws fw (List.mem_cons_self _ _) x (mem_itemsOf (by rw [hxsJ]; exact hxs) hx)

/-- `get_containers` publishes nothing. -/
theorem getContainers_publishesOnly {P : List Char → Prop} (c : Config) (http : Http) :
    PublishesOnly P (getContainers c http) := by
  unfold getContainers getMesosState
  refine PublishesOnly.bind ?_ fun _ => PublishesOnly.lift_bind fun _ _ =>
    PublishesOnly.lift_bind fun _ _ => ?_
  · split
    · exact publishesOnly_pure _
    · split
      · exact (publishesOnly_logError _).bind fun _ => publishesOnly_pure _
      · exact publishesOnly_raise _
  · split
    · exact PublishesOnly.lift_bind fun _ _ => PublishesOnly.lift_bind fun _ _ =>
        publishesOnly_lift _
    · exact publishesOnly_pure _

/-- **The `containers` dict of a state document**: the flags under `'flags'`,
and the names of four-part sources under their executors' container IDs. -/
theorem getContainers_returns {c : Config} {http : Http} {doc : Json}
    (hhttp : http (stateUrl c) = .ok doc) : Returns (EntriesOf doc) (getContainers c http) := by
  have hstate : getMesosState c http = pure doc := by
    rw [getMesosState, hhttp]
  unfold getContainers
  rw [hstate]
  refine (returns_pure (Q := (· = doc)) rfl).bind fun _ hdoc => ?_
  subst hdoc
  refine Returns.lift_bind fun flags hflags => Returns.lift_bind fun _ _ => ?_
  split
  · refine Returns.lift_bind fun fwsJ hfwsJ => Returns.lift_bind fun fws hfws =>
      returns_lift fun _ h => ?_
    refine addFrameworks_entries (fun fw hfw x hx => ?_) (entriesOf_flags hflags) h
    exact List.mem_flatMap.2 ⟨fw, mem_itemsOf (by rw [hfwsJ]; exact hfws) hfw, hx⟩
  · exact returns_pure (entriesOf_flags hflags)

theorem get?_of_lookupEntry {containers : Containers} {k : List Char} {e : Entry}
    (h : lookupEntry containers k = .ok e) : containers.get? k = some e := by
  unfold lookupEntry at h
  cases hk : containers.get? k <;> simp [hk] at h
  rw [h]

/-- An executor's entry has no `cgroups_hierarchy`. -/
theorem getItem_entryOf_hierarchy (source : List Char) (v : Json) :
    (entryOf source).getItem "cgroups_hierarchy".toList ≠ .ok v := by
  unfold entryOf
  split <;> simp [Entry.getItem, Json.getItem]

/-! ### What a cycle publishes -/

section Publishes

variable {P : List Char → Prop}

theorem publishStatLines_publishesOnly (parts : List Json) :
    ∀ {lines : List (List Char)}, (∀ key ∈ statKeys lines, ∀ name,
      joinNames (parts ++ [.str key]) = .ok name → P (cleanUp name)) →
      PublishesOnly P (publishStatLines parts lines)
  | [], _ => publishesOnly_pure ()
  | line :: lines, hP => by
    have ih := publishStatLines_publishesOnly parts fun key hk => hP key (mem_statKeys_cons hk)
    unfold publishStatLines
    dsimp only
    split
    · next key value hsplit =>
      refine PublishesOnly.lift_bind fun name hname => (publishesOnly_publish ?_ _ _).bind fun _ => ih
      exact hP key (by simp [statKeys, hsplit]) name hname
    · exact (publishesOnly_raise _).bind fun _ => ih

/-- A task directory publishes the usage, for `cpuacct`, and the keys of its
`<aspect>.stat`. -/
theorem publishTask_publishesOnly {fs : Fs} {aspect taskPath : List Char} {parts : List Json}
    (husage : aspect = "cpuacct".toList → ∀ name,
      joinNames (parts ++ [.str "usage".toList]) = .ok name → P (cleanUp name))
    (hstat : ∀ f, fs.openFile (pathJoin taskPath (aspect ++ ".stat".toList)) = .ok f →
      ∀ key ∈ statKeys (readlines f.bytes), ∀ name,
        joinNames (parts ++ [.str key]) = .ok name → P (cleanUp name)) :
    PublishesOnly P (publishTask fs aspect taskPath parts) := by
  have hrest : PublishesOnly P (do
      let f ← lift (fs.openFile (pathJoin taskPath (aspect ++ ".stat".toList)))
      let data ← readlinesFile f
      publishStatLines parts data) :=
    PublishesOnly.lift_bind fun f hf => PublishesOnly.lift_bind fun data hdata =>
      publishStatLines_publishesOnly parts fun key hk => hstat f hf key (by
        cases hfault : f.fault <;> simp only [hfault, Except.ok.injEq, reduceCtorEq] at hdata
        exact hdata ▸ hk)
  unfold publishTask
  dsimp only
  split
  · next hcpu =>
    refine PublishesOnly.lift_bind fun _ _ => (publishesOnly_lift _).bind fun ⟨value, _⟩ => ?_
    exact PublishesOnly.lift_bind fun name hname =>
      (publishesOnly_publish (husage hcpu name hname) _ _).bind fun _ => hrest
  · exact (publishesOnly_pure _).bind fun _ => hrest

/-- A subdirectory publishes as the task directory of the executor whose
names are its entry, or nothing when it has no entry. -/
theorem collectTask_publishesOnly {fs : Fs} {containers : Containers}
    {aspect aspectPath d : List Char}
    (hP : ∀ e, containers.get? d = some e → ∃ source, e = entryOf source ∧
      (source.splitOn '.').length = 4 ∧
      PublishesOnly P (publishTask fs aspect (pathJoin aspectPath d)
        ((keyParts source ++ [aspect]).map .str))) :
    PublishesOnly P (collectTask fs containers aspect aspectPath d) := by
  cases hget : containers.get? d with
  | none =>
    have hskip : containers.contains d = false := by
      rw [Dict.contains_eq, decide_eq_false_iff_not, ← Dict.get?_isSome_iff, hget]
      simp
    intro m n hn
    rw [collectTask_skip hskip m] at hn
    exact nomatch hn
  | some e =>
    obtain ⟨source, rfl, hlen, hpub⟩ := hP e hget
    match hp : source.splitOn '.', hlen with
    | [role, environment, task, number], _ =>
      have hentry : containers.get? d = some (.executor role environment task number) := by
        rw [hget]
        simp [entryOf, hp]
      rw [collectTask_executor hentry]
      simpa [keyParts, hp] using hpub

/-- An aspect publishes what its subdirectories do, under the hierarchy and
root it is given when both are strings. -/
theorem collectAspect_publishesOnly {fs : Fs} {containers : Containers} {sysfs root : Json}
    {aspect : List Char}
    (hP : ∀ h r, sysfs = .str h → root = .str r →
      ∀ d, fs.isdir (pathJoin (pathJoin (pathJoin h aspect) r) d) = true →
        PublishesOnly P (collectTask fs containers aspect (pathJoin (pathJoin h aspect) r) d)) :
    PublishesOnly P (collectAspect fs containers sysfs root aspect) := by
  unfold collectAspect
  refine PublishesOnly.lift_bind fun h hh => PublishesOnly.lift_bind fun r hr => ?_
  have hs : sysfs = .str h := by cases sysfs <;> cases hh; rfl
  have hro : root = .str r := by cases root <;> cases hr; rfl
  exact PublishesOnly.lift_bind fun _ _ =>
    publishesOnly_forEach fun d hd => hP h r hs hro d (List.mem_filter.1 hd).2

end Publishes

/-- **Every name a cycle publishes is the name of a series**, on every state
document and every cgroup tree with no subdirectory `flags` under an aspect. -/
theorem collect_publishesOnly_series {c : Config} {http : Http} {fs : Fs} {doc : Json}
    (hhttp : http (stateUrl c) = .ok doc)
    (hflagsdir : ∀ h r, flagsPaths doc = some (h, r) → ∀ aspect ∈ aspects,
      fs.isdir (pathJoin (pathJoin (pathJoin h aspect) r) "flags".toList) = false) :
    PublishesOnly (fun n => ∃ t, IsSeries doc fs t ∧ seriesName t = n) (collect c http fs) := by
  unfold collect
  refine (getContainers_publishesOnly c http).bind_of_returns (getContainers_returns hhttp)
    fun containers hent => ?_
  refine PublishesOnly.lift_bind fun entry hentry => PublishesOnly.lift_bind fun sysfs hsys =>
    PublishesOnly.lift_bind fun root hroot => ?_
  -- the entry under `'flags'` is the document's flags: an executor's has no hierarchy
  obtain ⟨flags, hflags, rfl⟩ : ∃ flags, doc.getItem "flags".toList = .ok flags ∧
      entry = .flags flags := by
    rcases hent _ _ (get?_of_lookupEntry hentry) with ⟨-, flags, hflags, rfl⟩ | ⟨s, -, -, rfl⟩
    · exact ⟨flags, hflags, rfl⟩
    · exact absurd hsys (getItem_entryOf_hierarchy s sysfs)
  refine publishesOnly_forEach fun aspect haspect =>
    collectAspect_publishesOnly fun h r hh hr d hdir => collectTask_publishesOnly fun e he => ?_
  subst hh hr
  have hpaths : flagsPaths doc = some (h, r) := by
    simp only [flagsPaths, hflags]
    rw [show flags.getItem "cgroups_hierarchy".toList = .ok (.str h) from hsys,
      show flags.getItem "cgroups_root".toList = .ok (.str r) from hroot]
  rcases hent d e he with ⟨hd, -⟩ | ⟨source, hmem, h4, rfl⟩
  · rw [hd, hflagsdir h r hpaths aspect haspect] at hdir
    cases hdir
  exact ⟨source, rfl, h4, publishTask_publishesOnly
    (fun hcpu _ hname => ⟨⟨source, aspect, "usage".toList⟩,
      ⟨haspect, h4, h, r, d, hpaths, hmem, .inl ⟨hcpu, rfl⟩⟩, seriesName_of_joinNames hname⟩)
    (fun f hf key hkey _ hname => ⟨⟨source, aspect, key⟩,
      ⟨haspect, h4, h, r, d, hpaths, hmem, .inr ⟨f, hf, hkey⟩⟩, seriesName_of_joinNames hname⟩)⟩

/-! ### When the name determines the series -/

theorem aspects_parts : ∀ aspect ∈ aspects, '.' ∉ aspect ∧ '/' ∉ aspect := by decide

/-- `clean_up` leaves a name without `/` as it is. -/
theorem cleanUp_of_not_mem {s : List Char} (h : '/' ∉ s) : cleanUp s = s := by
  conv_rhs => rw [← List.map_id s]
  exact List.map_congr_left fun c hc => if_neg fun (e : c = '/') => h (e ▸ hc)

theorem mem_splitOn_of_mem_keyParts {s l : List Char} (h : l ∈ keyParts s) : l ∈ s.splitOn '.' := by
  unfold keyParts at h
  split at h
  · next hp =>
    rw [hp]
    simp only [List.mem_cons, List.not_mem_nil, or_false] at h ⊢
    rcases h with h | h | h | h <;> simp [h]
  · exact absurd h (List.not_mem_nil _)

theorem length_keyParts {s : List Char} (h4 : (s.splitOn '.').length = 4) :
    (keyParts s).length = 4 := by
  match hp : s.splitOn '.', h4 with
  | [_, _, _, _], _ => simp [keyParts, hp]

/-- On four-part sources, `key_parts` determines the source. -/
theorem keyParts_inj {s s' : List Char} (hs : (s.splitOn '.').length = 4)
    (hs' : (s'.splitOn '.').length = 4) (h : keyParts s = keyParts s') : s = s' := by
  match hp : s.splitOn '.', hs with
  | [role, environment, task, number], _ =>
    match hp' : s'.splitOn '.', hs' with
    | [role', environment', task', number'], _ =>
      simp only [keyParts, hp, hp', List.cons.injEq] at h
      obtain ⟨rfl, rfl, rfl, rfl, -⟩ := h
      rw [← List.intercalate_splitOn s '.', ← List.intercalate_splitOn s' '.', hp, hp']

section Injective

variable {doc : Json} {fs : Fs} (hslash : ∀ e ∈ executorIds doc, '/' ∉ e.2)
  (hkeys : ∀ h r, flagsPaths doc = some (h, r) → ∀ aspect ∈ aspects, ∀ e ∈ executorIds doc,
    ∀ f, fs.openFile (statPath h r aspect e.1) = .ok f →
      ∀ key ∈ statKeys (readlines f.bytes), '/' ∉ key)
include hslash hkeys

/-- The first five parts of a series' name, the source's four and the aspect,
hold neither `.` nor `/`; the key holds no `/`. -/
theorem parts_of_isSeries {t : Series} (ht : IsSeries doc fs t) :
    (∀ l ∈ keyParts t.source ++ [t.aspect], '.' ∉ l ∧ '/' ∉ l) ∧ '/' ∉ t.key := by
  obtain ⟨haspect, -, h, r, d, hpaths, hmem, hkey⟩ := ht
  refine ⟨fun l hl => ?_, ?_⟩
  · rcases List.mem_append.1 hl with hl | hl
    · -- a part of the source
      have hsplit := mem_splitOn_of_mem_keyParts hl
      refine ⟨not_mem_of_mem_splitOn hsplit, fun hc => hslash _ hmem ?_⟩
      rw [← List.intercalate_splitOn t.source '.']
      exact subset_intercalate hsplit hc
    · exact List.mem_singleton.1 hl ▸ aspects_parts _ haspect
  · rcases hkey with ⟨-, hu⟩ | ⟨f, hf, hk⟩
    · rw [hu]
      decide
    · exact hkeys h r hpaths _ haspect _ hmem f hf _ hk

/-- A series' name is the join of its parts: `clean_up` changes nothing. -/
theorem seriesName_of_isSeries {t : Series} (ht : IsSeries doc fs t) :
    seriesName t = ['.'].intercalate ((keyParts t.source ++ [t.aspect]) ++ [t.key]) := by
  obtain ⟨hparts, hkey⟩ := parts_of_isSeries hslash hkeys ht
  rw [seriesName, show keyParts t.source ++ [t.aspect, t.key] =
    (keyParts t.source ++ [t.aspect]) ++ [t.key] by simp]
  refine cleanUp_of_not_mem fun hc => ?_
  rcases mem_of_mem_intercalate hc with hc | ⟨l, hl, hcl⟩
  · exact absurd hc (by decide)
  · rcases List.mem_append.1 hl with hl | hl
    · exact (hparts l hl).2 hcl
    · exact hkey (List.mem_singleton.1 hl ▸ hcl)

/-- **The name determines the series**, when no source and no key of an
executor's `<aspect>.stat` holds a `/`.  Splitting the name at `.` gives the
five parts before the key, which hold no `.`, and then the pieces of the key,
which may hold `.`s. -/
theorem seriesName_inj {t t' : Series} (ht : IsSeries doc fs t)
    (ht' : IsSeries doc fs t') (heq : seriesName t = seriesName t') : t = t' := by
  obtain ⟨hparts, -⟩ := parts_of_isSeries hslash hkeys ht
  obtain ⟨hparts', -⟩ := parts_of_isSeries hslash hkeys ht'
  rw [seriesName_of_isSeries hslash hkeys ht, seriesName_of_isSeries hslash hkeys ht'] at heq
  have hsplit := congrArg (List.splitOn '.') heq
  rw [splitOn_intercalate_append (fun l hl => (hparts l hl).1),
    splitOn_intercalate_append (fun l hl => (hparts' l hl).1)] at hsplit
  -- the five parts before the key, then the key's pieces
  obtain ⟨hfive, hkey⟩ := List.append_inj hsplit
    (by simp [length_keyParts ht.2.1, length_keyParts ht'.2.1])
  obtain ⟨hk, ha⟩ := List.append_inj hfive
    (by rw [length_keyParts ht.2.1, length_keyParts ht'.2.1])
  have hs := keyParts_inj ht.2.1 ht'.2.1 hk
  have hk' : t.key = t'.key := by
    rw [← List.intercalate_splitOn t.key '.', hkey, List.intercalate_splitOn]
  obtain ⟨s, a, k⟩ := t
  obtain ⟨s', a', k'⟩ := t'
  simp only [List.cons.injEq, and_true] at hs ha hk'
  rw [hs, ha, hk']

end Injective

/-- **Each name a cycle publishes names exactly one series.**  Take any state
document whose executors' sources hold no `/`, and any cgroup tree with no
subdirectory `flags` under an aspect and no `/` in a key of an executor's
`<aspect>.stat`.  Then one series, an executor's source, an aspect
and a key, has the name of each publication of the cycle. -/
theorem collect_names_injective {c : Config} {http : Http} {fs : Fs} {doc : Json}
    (hhttp : http (stateUrl c) = .ok doc) (hslash : ∀ e ∈ executorIds doc, '/' ∉ e.2)
    (hflagsdir : ∀ h r, flagsPaths doc = some (h, r) → ∀ aspect ∈ aspects,
      fs.isdir (pathJoin (pathJoin (pathJoin h aspect) r) "flags".toList) = false)
    (hkeys : ∀ h r, flagsPaths doc = some (h, r) → ∀ aspect ∈ aspects, ∀ e ∈ executorIds doc,
      ∀ f, fs.openFile (statPath h r aspect e.1) = .ok f →
        ∀ key ∈ statKeys (readlines f.bytes), '/' ∉ key)
    (m : Counters) :
    ∀ n ∈ published (collect c http fs m).effects,
      ∃! t, IsSeries doc fs t ∧ seriesName t = n := by
  intro n hn
  obtain ⟨t, ht, rfl⟩ := collect_publishesOnly_series hhttp hflagsdir m n hn
  exact ⟨t, ⟨ht, rfl⟩, fun t' ⟨ht', heq⟩ => seriesName_inj hslash hkeys ht' ht heq⟩

theorem collect_names_injective_c1 :
    let doc : Json := .obj [("flags".toList, .obj
      [("cgroups_hierarchy".toList, .str "/sys/fs/cgroup".toList),
        ("cgroups_root".toList, .str "mesos".toList)]),
      ("frameworks".toList, .arr [.obj [("executors".toList, .arr [.obj
        [("container".toList, .str "c1".toList), ("source".toList, .str "role.env.task.0".toList)]])]])]
    let http : Http := fun _ => .ok doc
    let files := [("/sys/fs/cgroup/cpuacct/mesos/c1/cpuacct.usage".toList, "123\n".toList),
      ("/sys/fs/cgroup/cpuacct/mesos/c1/cpuacct.stat".toList, "user 5\nsystem 2\n".toList)]
    let fs := Fs.ofEntries
      [("/sys/fs/cgroup/cpuacct/mesos".toList, ["c1".toList]),
        ("/sys/fs/cgroup/cpuacct/mesos/c1".toList, []),
        ("/sys/fs/cgroup/cpu/mesos".toList, []), ("/sys/fs/cgroup/memory/mesos".toList, [])]
      files (by decide)
    http (stateUrl defaultConfig) = .ok doc ∧ (∀ e ∈ executorIds doc, '/' ∉ e.2) ∧
      (∀ h r, flagsPaths doc = some (h, r) → ∀ aspect ∈ aspects,
        fs.isdir (pathJoin (pathJoin (pathJoin h aspect) r) "flags".toList) = false) ∧
      (∀ h r, flagsPaths doc = some (h, r) → ∀ aspect ∈ aspects, ∀ e ∈ executorIds doc,
        ∀ f, fs.openFile (statPath h r aspect e.1) = .ok f →
          ∀ key ∈ statKeys (readlines f.bytes), '/' ∉ key) ∧
      ∀ n ∈ published (collect defaultConfig http fs Dict.empty).effects,
        ∃! t, IsSeries doc fs t ∧ seriesName t = n := by
  intro doc http files fs
  have hpaths : flagsPaths doc = some ("/sys/fs/cgroup".toList, "mesos".toList) := rfl
  have hslash : ∀ e ∈ executorIds doc, '/' ∉ e.2 := by decide
  have hflagsdir : ∀ h r, flagsPaths doc = some (h, r) → ∀ aspect ∈ aspects,
      fs.isdir (pathJoin (pathJoin (pathJoin h aspect) r) "flags".toList) = false := by
    intro h r hp
    obtain ⟨rfl, rfl⟩ := Prod.mk.inj (Option.some.inj (hp.symm.trans hpaths))
    decide
  -- every file of the tree has keys without `/`
  have hall : ∀ q ∈ files, ∀ key ∈ statKeys (readlines q.2), '/' ∉ key := by decide
  have hkeys : ∀ h r, flagsPaths doc = some (h, r) → ∀ aspect ∈ aspects, ∀ e ∈ executorIds doc,
      ∀ f, fs.openFile (statPath h r aspect e.1) = .ok f →
        ∀ key ∈ statKeys (readlines f.bytes), '/' ∉ key := fun _ _ _ _ _ _ _ f hf => by
    obtain ⟨text, hmem, rfl⟩ := Fs.openFile_ofEntries hf
    exact hall _ hmem
  exact ⟨rfl, hslash, hflagsdir, hkeys,
    collect_names_injective rfl hslash hflagsdir hkeys Dict.empty⟩

/-- Two executors with distinct sources, `r.e/f.t.1` and `f.e.r.t/1`: their
`cpu` series for the key `user` are both named `e.f.r.t.1.cpu.user`, and the
cycle publishes that name twice.  One executor whose `cpu.stat` has the keys
`a/b` and `a.b`: both series are named `env.role.task.0.cpu.a.b`. -/
theorem collect_names_collide :
    let state (execs : List (List Char × List Char)) : Json := .obj [("flags".toList, .obj
      [("cgroups_hierarchy".toList, .str "/sys/fs/cgroup".toList),
        ("cgroups_root".toList, .str "mesos".toList)]),
      ("frameworks".toList, .arr [.obj [("executors".toList,
        .arr (execs.map fun e => .obj [("container".toList, .str e.1), ("source".toList, .str e.2)]))]])]
    let twoExecs := state [("c1".toList, "r.e/f.t.1".toList), ("c2".toList, "f.e.r.t/1".toList)]
    let oneExec := state [("c1".toList, "role.env.task.0".toList)]
    let twoDirs := Fs.ofEntries
      [("/sys/fs/cgroup/cpuacct/mesos".toList, []),
        ("/sys/fs/cgroup/cpu/mesos".toList, ["c1".toList, "c2".toList]),
        ("/sys/fs/cgroup/cpu/mesos/c1".toList, []), ("/sys/fs/cgroup/cpu/mesos/c2".toList, []),
        ("/sys/fs/cgroup/memory/mesos".toList, [])]
      [("/sys/fs/cgroup/cpu/mesos/c1/cpu.stat".toList, "user 1\n".toList),
        ("/sys/fs/cgroup/cpu/mesos/c2/cpu.stat".toList, "user 2\n".toList)] (by decide)
    let twoKeys := Fs.ofEntries
      [("/sys/fs/cgroup/cpuacct/mesos".toList, []),
        ("/sys/fs/cgroup/cpu/mesos".toList, ["c1".toList]),
        ("/sys/fs/cgroup/cpu/mesos/c1".toList, []), ("/sys/fs/cgroup/memory/mesos".toList, [])]
      [("/sys/fs/cgroup/cpu/mesos/c1/cpu.stat".toList, "a/b 1\na.b 2\n".toList)] (by decide)
    let t₁ : Series := ⟨"r.e/f.t.1".toList, "cpu".toList, "user".toList⟩
    let t₂ : Series := ⟨"f.e.r.t/1".toList, "cpu".toList, "user".toList⟩
    let u₁ : Series := ⟨"role.env.task.0".toList, "cpu".toList, "a/b".toList⟩
    let u₂ : Series := ⟨"role.env.task.0".toList, "cpu".toList, "a.b".toList⟩
    (t₁ ≠ t₂ ∧ IsSeries twoExecs twoDirs t₁ ∧ IsSeries twoExecs twoDirs t₂ ∧
      seriesName t₁ = "e.f.r.t.1.cpu.user".toList ∧ seriesName t₂ = "e.f.r.t.1.cpu.user".toList ∧
      published (collect defaultConfig (fun _ => .ok twoExecs) twoDirs Dict.empty).effects =
        ["e.f.r.t.1.cpu.user".toList, "e.f.r.t.1.cpu.user".toList]) ∧
    (u₁ ≠ u₂ ∧ IsSeries oneExec twoKeys u₁ ∧ IsSeries oneExec twoKeys u₂ ∧
      seriesName u₁ = "env.role.task.0.cpu.a.b".toList ∧
      seriesName u₂ = "env.role.task.0.cpu.a.b".toList ∧
      published (collect defaultConfig (fun _ => .ok oneExec) twoKeys Dict.empty).effects =
        ["env.role.task.0.cpu.a.b".toList, "env.role.task.0.cpu.a.b".toList]) := by
  refine ⟨⟨by decide, ⟨by decide, by decide, _, _, "c1".toList, rfl, by decide, .inr ⟨_, rfl, by decide⟩⟩,
    ⟨by decide, by decide, _, _, "c2".toList, rfl, by decide, .inr ⟨_, rfl, by decide⟩⟩,
    by decide, by decide, by decide⟩,
    ⟨by decide, ⟨by decide, by decide, _, _, "c1".toList, rfl, by decide, .inr ⟨_, rfl, by decide⟩⟩,
    ⟨by decide, by decide, _, _, "c1".toList, rfl, by decide, .inr ⟨_, rfl, by decide⟩⟩,
    by decide, by decide, by decide⟩⟩

/-! ### The stat loop, on every text -/

/-- A line of a `*.stat` file as `key, value = kv_pair.split()` reads it:
`none` where `split()` does not cut it in two. -/
def statPair? (line : List Char) : Option (List Char × List Char) :=
  match split line with
  | [key, value] => some (key, value)
  | _ => none

theorem joinNames_strs_append (ps : List (List Char)) (key : List Char) :
    joinNames (ps.map .str ++ [.str key]) = .ok (['.'].intercalate (ps ++ [key])) := by
  rw [← List.map_singleton, ← List.map_append, joinNames_strs]

/-- **The stat loop, on every text.**  For key parts that are strings,
`for kv_pair in data` publishes `clean_up('.'.join(key_parts + [key]))`, with
the value's text, for the lines up to the first that `split()` does not cut
in two, in order; that line raises `ValueError`, and the loop returns when
there is none. -/
theorem publishStatLines_eq (ps : List (List Char)) :
    ∀ (lines : List (List Char)) (m : Counters),
      publishStatLines (ps.map .str) lines m =
        ⟨((lines.takeWhile fun l => (statPair? l).isSome).filterMap statPair?).map fun kv =>
            .publish (cleanUp (['.'].intercalate (ps ++ [kv.1]))) (.text kv.2) .plain none,
          m, if lines.all fun l => (statPair? l).isSome then .ok () else .error .valueError⟩
  | [], _ => rfl
  | line :: lines, m => by
    have ih := publishStatLines_eq ps lines m
    rcases hs : split line with _ | ⟨key, _ | ⟨value, _ | ⟨w, rest⟩⟩⟩ <;>
      simp [publishStatLines, statPair?, hs, ih, joinNames_strs_append, publish]
end MesosCGroupCollector

end Diamond
