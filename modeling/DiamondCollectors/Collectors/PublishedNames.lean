/-
DiamondCollectors/Collectors/PublishedNames.lean

Each name at most once per cycle.  The spec publishes a sample "once per
collection cycle per matched name".  `PublishesAmong names x` says that what
`x` publishes, in order and from any counter memory, is a sublist of `names`:
a name comes at most as often as it comes there.  There is one rule per
combinator, the names of a sequence being those of its parts one after the
other, so a loop publishes among the names of the entries it goes through.
Where those are distinct (the keys of a dict, an `os.listdir` listing) no name
is published twice.

So on every text of `/proc/net/snmp` and with every allow-list, an IP or UDP
cycle publishes no name twice (`SnmpProto.published_nodup`); nor does a KVM
cycle on any state of debugfs (`KVMCollector.published_files_nodup`), or a KSM
cycle on any contents of its directory, each entry being published under its
`basename` (`KSMCollector.published_entries_nodup`), whichever entry raises.
A memcached host publishes `alias.stat` once for each name `desired` goes
through, so each name at most once when `publish` is unset or lists distinct
names (`MemcachedCollector.collectHost_published_nodup`); a name the `publish`
list repeats is published as often.
-/
import DiamondCollectors.Collectors.SysfsSpec
import DiamondCollectors.Collectors.MemcachedSpec

namespace Diamond

variable {α β : Type}

/-! ### Programs and the names they publish -/

/-- What `x` publishes, from any memory and in order, is a sublist of `names`. -/
def PublishesAmong (names : List (List Char)) (x : Coll α) : Prop :=
  ∀ m, (published (x m).effects).Sublist names

section PublishesAmong

variable {A B : List (List Char)}

theorem publishesAmong_pure (a : α) : PublishesAmong A (pure a : Coll α) :=
  fun _ => List.nil_sublist _

theorem publishesAmong_lift (r : Except PyExc α) : PublishesAmong A (lift r) :=
  fun _ => List.nil_sublist _

theorem publishesAmong_raise (e : PyExc) : PublishesAmong A (raise e : Coll α) :=
  fun _ => List.nil_sublist _

/-- A log line publishes nothing. -/
theorem publishesAmong_emit_log (level : Level) (msg : List Char) :
    PublishesAmong A (emit (.log level msg)) :=
  fun _ => List.nil_sublist _

theorem publishesAmong_logError (msg : List Char) : PublishesAmong A (logError msg) :=
  publishesAmong_emit_log _ _

theorem publishesAmong_derivative (name : List Char) (new : ℚ) (modulus : Option ℚ) :
    PublishesAmong A (derivative name new modulus) := fun _ => List.nil_sublist _

/-- `publish`, `publish_gauge` and `publish_counter` publish their name. -/
theorem publishesAmong_emit_publish (name : List Char) (v : Value) (k : Kind)
    (precision : Option Nat) : PublishesAmong [name] (emit (.publish name v k precision)) :=
  fun _ => List.Sublist.refl _

theorem PublishesAmong.mono {x : Coll α} (hx : PublishesAmong A x) (h : A.Sublist B) :
    PublishesAmong B x :=
  fun m => (hx m).trans h

/-- A sequence publishes among the names of its first part, then those of
the second. -/
theorem PublishesAmong.bind {x : Coll α} {f : α → Coll β} (hx : PublishesAmong A x)
    (hf : ∀ a, PublishesAmong B (f a)) : PublishesAmong (A ++ B) (x >>= f) := by
  intro m
  rw [bind_apply]
  cases h : (x m).result with
  | ok a =>
    rw [Outcome.bind_of_ok h, published_append]
    exact (hx m).append (hf a _)
  | error e =>
    rw [Outcome.bind_of_error h]
    exact (hx m).trans (List.sublist_append_left A B)

theorem PublishesAmong.silent_bind {x : Coll α} {f : α → Coll β} (hx : PublishesAmong [] x)
    (hf : ∀ a, PublishesAmong B (f a)) : PublishesAmong B (x >>= f) :=
  hx.bind hf

/-- What publishes nothing, then what publishes no name twice, knowing what
was returned, publishes no name twice. -/
theorem nodup_bind_of_returns {Q : α → Prop} {x : Coll α} {f : α → Coll β}
    (hx : PublishesAmong [] x) (hQ : Returns Q x)
    (hf : ∀ a, Q a → ∀ m, (published (f a m).effects).Nodup) (m : Counters) :
    (published ((x >>= f) m).effects).Nodup := by
  have hnil := List.sublist_nil.1 (hx m)
  rw [bind_apply]
  cases h : (x m).result with
  | ok a =>
    rw [Outcome.bind_of_ok h, published_append, hnil]
    exact hf a (hQ m a h) _
  | error e =>
    rw [Outcome.bind_of_error h, hnil]
    exact List.nodup_nil

theorem nodup_bind {x : Coll α} {f : α → Coll β} (hx : PublishesAmong [] x)
    (hf : ∀ a m, (published (f a m).effects).Nodup) (m : Counters) :
    (published ((x >>= f) m).effects).Nodup :=
  nodup_bind_of_returns hx (Q := fun _ => True) (fun _ _ _ => trivial) (fun a _ => hf a) m

end PublishesAmong

/-! ### IP and UDP -/

/-- The publishing loop publishes among the names of its items, when each
item publishes at most its own name. -/
theorem publishAllowed_publishesAmong (allowed : ConfigValue)
    {publishOne : List Char → List Char → Coll Unit}
    (hone : ∀ name raw, PublishesAmong [name] (publishOne name raw)) :
    ∀ items : List (List Char × List Char),
      PublishesAmong (items.map Prod.fst) (publishAllowed allowed publishOne items)
  | [] => publishesAmong_pure ()
  | (name, raw) :: items => by
    refine (publishesAmong_lift _).silent_bind fun _ => ?_
    split
    · exact (publishAllowed_publishesAmong allowed hone items).mono (List.sublist_cons_self _ _)
    · exact (hone name raw).bind fun _ => publishAllowed_publishesAmong allowed hone items

/-- The reading loop publishes nothing. -/
theorem readSnmp_publishesAmong (pre : List Char) (noLines : List Char → List Char) (fs : Fs) :
    ∀ (paths : List (List Char)) (metrics : Dict (List Char) (List Char)),
      PublishesAmong [] (readSnmp pre noLines fs paths metrics)
  | [], _ => publishesAmong_pure _
  | path :: paths, metrics => by
    unfold readSnmp
    split
    · refine (publishesAmong_lift _).silent_bind fun _ =>
        (publishesAmong_lift _).silent_bind fun ⟨header, data⟩ => ?_
      dsimp only
      split
      · exact (publishesAmong_logError _).silent_bind fun _ =>
          readSnmp_publishesAmong pre noLines fs paths metrics
      · exact (publishesAmong_lift _).silent_bind fun metrics' =>
          readSnmp_publishesAmong pre noLines fs paths metrics'
    · exact (publishesAmong_logError _).silent_bind fun _ =>
        readSnmp_publishesAmong pre noLines fs paths metrics

theorem SnmpProto.publishOne_publishesAmong (p : SnmpProto) (name raw : List Char) :
    PublishesAmong [name] (p.publishOne name raw) := by
  cases p
  · refine (publishesAmong_lift _).silent_bind fun _ => ?_
    split <;> exact publishesAmong_emit_publish _ _ _ _
  · exact (publishesAmong_lift _).silent_bind fun _ =>
      (publishesAmong_derivative _ _ _).silent_bind fun _ => publishesAmong_emit_publish _ _ _ _

/-- **An IP or UDP cycle publishes each name at most once**, on every state of
`/proc/net/snmp`, with every allow-list and from any memory: it publishes
among the keys of the `metrics` dict. -/
theorem SnmpProto.published_nodup (p : SnmpProto) (c : SnmpConfig) (fs : Fs) (m : Counters) :
    (published (p.collect c fs m).effects).Nodup := by
  rw [p.collect_eq, collectSnmp]
  exact nodup_bind (readSnmp_publishesAmong _ _ _ _ _) (fun metrics m => metrics.nodup.sublist
    (publishAllowed_publishesAmong _ p.publishOne_publishesAmong _ m)) m

/-! ### KVM -/

namespace KVMCollector

theorem collectFile_publishesAmong (fs : Fs) (filename : List Char) :
    PublishesAmong [filename] (collectFile fs filename) :=
  (publishesAmong_lift _).silent_bind fun _ =>
    (publishesAmong_derivative _ _ _).silent_bind fun _ => publishesAmong_emit_publish _ _ _ _

theorem collectFiles_publishesAmong (fs : Fs) :
    ∀ names : List (List Char), PublishesAmong names (collectFiles fs names)
  | [] => publishesAmong_pure ()
  | name :: names =>
    (collectFile_publishesAmong fs name).bind fun _ => collectFiles_publishesAmong fs names

/-- **A KVM cycle publishes each file at most once**, on every state of
debugfs and from any memory: it publishes among the names `os.listdir`
returned. -/
theorem published_files_nodup (fs : Fs) (m : Counters) :
    (published (collect fs m).effects).Nodup := by
  unfold collect
  split
  · exact nodup_bind_of_returns (publishesAmong_lift _) (returns_lift fun _ h => h)
      (fun names h m => (fs.listdir_valid proc names h).1.sublist
        (collectFiles_publishesAmong fs names m)) m
  · exact List.nodup_nil

end KVMCollector

/-! ### KSM -/

/-- The entries `glob` lists have distinct basenames: their names in the
directory. -/
theorem globStar_basenames_nodup (fs : Fs) (d : List Char) :
    ((globStar fs d).map basename).Nodup := by
  unfold globStar
  dsimp only
  split
  · next names h =>
    obtain ⟨hnd, hnames⟩ := fs.listdir_valid _ names h
    rw [List.map_map]
    refine (hnd.filter _).map_on fun x hx y hy hxy => ?_
    simpa only [Function.comp_apply, basename_pathJoin _ (hnames x (List.mem_of_mem_filter hx)).2.1,
      basename_pathJoin _ (hnames y (List.mem_of_mem_filter hy)).2.1] using hxy
  · exact List.nodup_nil

namespace KSMCollector

theorem collectItem_publishesAmong (fs : Fs) (item : List Char) :
    PublishesAmong [basename item] (collectItem fs item) := fun m => by
  rw [collectItem_eq]
  cases entryEnd fs item <;> simp [EntryEnd.publication, published]

theorem collectItems_publishesAmong (fs : Fs) :
    ∀ items : List (List Char), PublishesAmong (items.map basename) (collectItems fs items)
  | [] => publishesAmong_pure ()
  | item :: items =>
    (collectItem_publishesAmong fs item).bind fun _ => collectItems_publishesAmong fs items

/-- **A KSM cycle publishes each name at most once**, on every contents of its
directory and from any memory: it publishes among the basenames of the
entries `glob` lists. -/
theorem published_entries_nodup (c : Config) (fs : Fs) (m : Counters) :
    (published (collect c fs m).effects).Nodup :=
  (globStar_basenames_nodup fs c.ksmPath).sublist (collectItems_publishesAmong fs _ m)

end KSMCollector

/-! ### Memcached -/

namespace MemcachedCollector

/-- `get_raw_stats` publishes nothing. -/
theorem getRawStats_publishesAmong (ep : Endpoint) (host : List Char) (port : Option (List Char)) :
    PublishesAmong [] (getRawStats ep host port) := by
  have hclose : ∀ bound data, PublishesAmong [] (closeAndReturn bound data) :=
    fun bound data => by
    unfold closeAndReturn
    split
    · exact publishesAmong_pure _
    · exact publishesAmong_raise _
  unfold getRawStats
  split
  · exact hclose _ _
  · split
    · exact (publishesAmong_emit_log _ _).silent_bind fun _ => hclose _ _
    · exact publishesAmong_raise _

theorem getStats_publishesAmong (ep : Endpoint) (pfs : Procfs) (host : List Char)
    (port : Option (List Char)) : PublishesAmong [] (getStats ep pfs host port) := by
  rw [getStats_eq]
  exact (getRawStats_publishesAmong ep host port).silent_bind fun _ =>
    (publishesAmong_lift _).silent_bind fun _ => (publishesAmong_emit_log _ _).silent_bind fun _ =>
      (publishesAmong_emit_log _ _).silent_bind fun _ => publishesAmong_pure _

/-- `for stat in desired` publishes among `alias.stat` for the names it goes
through. -/
theorem publishStats_publishesAmong (label : List Char) (stats : Dict (List Char) Value) :
    ∀ keys : List (List Char),
      PublishesAmong (keys.map (label ++ ".".toList ++ ·)) (publishStats label stats keys)
  | [] => publishesAmong_pure ()
  | stat :: keys => by
    refine PublishesAmong.bind (A := [label ++ ".".toList ++ stat]) ?_ fun _ =>
      publishStats_publishesAmong label stats keys
    unfold publishStat
    split
    · split <;> exact publishesAmong_emit_publish _ _ _ _
    · exact publishesAmong_emit_log _ _

/-- **A memcached host publishes each name at most once**, whatever its spec,
its server's answer and `/proc`, when `publish` is unset or goes through
distinct names: it publishes among `alias.stat` for the names of `desired`. -/
theorem collectHost_published_nodup (c : Config) (net : Net) (pfs : Procfs) (host : List Char)
    (m : Counters)
    (hpub : ∀ v, c.publish = some v → ∀ keys, v.iter = .ok keys → keys.Nodup) :
    (published (collectHost c net pfs host m).effects).Nodup := by
  -- the names `desired` goes through are distinct
  have hkeys : ∀ stats keys, desired c.publish stats = .ok keys → keys.Nodup := by
    intro stats keys hd
    unfold desired at hd
    split at hd
    · cases hd
      exact stats.nodup
    · exact hpub _ ‹_› keys hd
  unfold collectHost
  refine nodup_bind (publishesAmong_lift _) (fun ⟨label, hostname, port⟩ m => ?_) m
  exact nodup_bind (getStats_publishesAmong _ _ _ _) (fun stats m =>
    nodup_bind_of_returns (publishesAmong_lift _) (returns_lift fun _ h => h) (fun keys hd m =>
      ((hkeys stats keys hd).map fun _ _ h => List.append_cancel_left h).sublist
        (publishStats_publishesAmong label stats keys m)) m) m

/-- The default configuration, `publish` unset, on a server that answers one
stat. -/
theorem collectHost_published_nodup_default :
    (∀ v, defaultConfig.publish = some v → ∀ keys, v.iter = .ok keys → keys.Nodup) ∧
      (published (collectHost defaultConfig
        (fun _ _ => ⟨true, true, true, [.bytes "STAT curr_items 5\r\nEND\r\n".toList]⟩)
        Procfs.empty "localhost:11211".toList Dict.empty).effects).Nodup :=
  ⟨fun _ h => (nomatch h), collectHost_published_nodup _ _ _ _ _ fun _ h => nomatch h⟩

end MemcachedCollector

end Diamond
