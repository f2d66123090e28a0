/-
DiamondCollectors/Host.lean

The host framework the collectors run in, and the files they read.

A collector's `collect` is a program against the host: it publishes metrics,
writes log lines, keeps counter values through the host's `derivative`, and may
raise a Python exception, which ends the cycle.  `Coll α` is such a program.
From the host's counter memory it yields an `Outcome`: the effects it had, in
order, the counter memory it leaves, and a value or the exception it raised.
Effects before an exception stay in the outcome, as a metric published before
a crash stays published.

The host's own code (`publish`, `publish_gauge`, `publish_counter`,
`derivative`, the logger) is not in the repository: it is modelled from the
spec (§3, §6 and §8).

Three predicates on programs are checked by composing rules, one per
combinator: `Keeps` (the counter memory is left alone), `Returns Q` (every
value returned satisfies `Q`) and `PublishesOnly P` (every name published
satisfies `P`).
-/
import DiamondCollectors.Py.Num
import DiamondCollectors.Py.Dict

namespace Diamond

/-! ### Exceptions, metrics, effects -/

/-- A Python exception, by its class: the collectors only ever test the class. -/
inductive PyExc
  | socketError  -- socket.error, socket.timeout included
  | ioError      -- IOError and OSError: open, read, listdir
  | valueError
  | indexError
  | keyError
  | typeError
  | attributeError
  | overflowError
  | unboundLocalError
  | httpError    -- urllib2.HTTPError
  | urlError     -- a urllib2.URLError that is not an HTTPError
  deriving DecidableEq, Repr

/-- How a metric is handed to the host. -/
inductive Kind
  | plain    -- publish
  | gauge    -- publish_gauge
  | counter  -- publish_counter
  deriving DecidableEq, Repr

/-- A published value: a number, or a string handed over unconverted. -/
inductive Value
  | num (q : ℚ)
  | text (s : List Char)
  deriving DecidableEq

inductive Level
  | error
  | debug
  deriving DecidableEq, Repr

/-- One thing a collector did that the host records. -/
inductive Effect
  | publish (name : List Char) (value : Value) (kind : Kind) (precision : Option Nat)
  | log (level : Level) (msg : List Char)
  deriving DecidableEq

/-- The names of the metrics among some effects, in order. -/
def published : List Effect → List (List Char)
  | [] => []
  | .publish n _ _ _ :: es => n :: published es
  | .log _ _ :: es => published es

/-- The error lines among some effects, in order. -/
def errors : List Effect → List (List Char)
  | [] => []
  | .log .error m :: es => m :: errors es
  | _ :: es => errors es

@[simp] theorem published_append (es es' : List Effect) :
    published (es ++ es') = published es ++ published es' := by
  induction es with
  | nil => rfl
  | cons e es ih => cases e <;> simp [published, ih]

@[simp] theorem errors_append (es es' : List Effect) :
    errors (es ++ es') = errors es ++ errors es' := by
  induction es with
  | nil => rfl
  | cons e es ih =>
    rcases e with _ | ⟨_ | _, _⟩ <;> simp [errors, ih]

/-- Publishing one metric per item publishes the items' names. -/
theorem published_map_publish {α : Type} (xs : List α) (name : α → List Char)
    (value : α → Value) (kind : α → Kind) (precision : α → Option Nat) :
    published (xs.map fun x => .publish (name x) (value x) (kind x) (precision x)) =
      xs.map name := by
  induction xs with
  | nil => rfl
  | cons x xs ih => simp [published, ih]

/-! ### Collector programs -/

/-- The host's counter memory: the last raw value `derivative` saw, per name. -/
abbrev Counters := Dict (List Char) ℚ

/-- What running collector code did: its effects in order, the counter memory
it left, and its value or the exception it raised. -/
structure Outcome (α : Type) where
  effects : List Effect
  last : Counters
  result : Except PyExc α

/-- Collector code, run from the host's counter memory. -/
def Coll (α : Type) : Type := Counters → Outcome α

variable {α β : Type}

/-- Run `f` after an outcome; an exception skips it. -/
def Outcome.bind (o : Outcome α) (f : α → Coll β) : Outcome β :=
  match o.result with
  | .ok a =>
    let o' := f a o.last
    ⟨o.effects ++ o'.effects, o'.last, o'.result⟩
  | .error e => ⟨o.effects, o.last, .error e⟩

instance : Monad Coll where
  pure a m := ⟨[], m, .ok a⟩
  bind x f m := (x m).bind f

@[simp] theorem pure_apply (a : α) (m : Counters) : (pure a : Coll α) m = ⟨[], m, .ok a⟩ := rfl

@[simp] theorem bind_apply (x : Coll α) (f : α → Coll β) (m : Counters) :
    (x >>= f) m = (x m).bind f := rfl

@[simp] theorem Outcome.bind_ok (es : List Effect) (m : Counters) (a : α) (f : α → Coll β) :
    (⟨es, m, .ok a⟩ : Outcome α).bind f = ⟨es ++ (f a m).effects, (f a m).last, (f a m).result⟩ :=
  rfl

@[simp] theorem Outcome.bind_error (es : List Effect) (m : Counters) (e : PyExc)
    (f : α → Coll β) : (⟨es, m, .error e⟩ : Outcome α).bind f = ⟨es, m, .error e⟩ := rfl

@[simp] theorem Outcome.bind_pure (o : Outcome α) : o.bind pure = o := by
  obtain ⟨es, m, r⟩ := o
  cases r <;> simp [Outcome.bind]

theorem Outcome.bind_of_ok {o : Outcome α} {a : α} (h : o.result = .ok a) (f : α → Coll β) :
    o.bind f = ⟨o.effects ++ (f a o.last).effects, (f a o.last).last, (f a o.last).result⟩ := by
  obtain ⟨es, m, r⟩ := o
  cases h
  rfl

theorem Outcome.bind_of_error {o : Outcome α} {e : PyExc} (h : o.result = .error e)
    (f : α → Coll β) : o.bind f = ⟨o.effects, o.last, .error e⟩ := by
  obtain ⟨es, m, r⟩ := o
  cases h
  rfl

/-- Record one effect. -/
def emit (e : Effect) : Coll Unit := fun m => ⟨[e], m, .ok ()⟩

/-- `raise e` -/
def raise (e : PyExc) : Coll α := fun m => ⟨[], m, .error e⟩

/-- A Python call that returns or raises, with no effect on the host. -/
def lift (r : Except PyExc α) : Coll α := fun m => ⟨[], m, r⟩

/-- `try: body except <the classes `handles` accepts>: handler`. -/
def catching (handles : PyExc → Bool) (body : Coll α) (handler : PyExc → Coll α) : Coll α :=
  fun m =>
    let o := body m
    match o.result with
    | .error e => if handles e then
        let o' := handler e o.last
        ⟨o.effects ++ o'.effects, o'.last, o'.result⟩
      else o
    | .ok _ => o

@[simp] theorem emit_apply (e : Effect) (m : Counters) : emit e m = ⟨[e], m, .ok ()⟩ := rfl

@[simp] theorem raise_apply (e : PyExc) (m : Counters) : (raise e : Coll α) m = ⟨[], m, .error e⟩ :=
  rfl

@[simp] theorem lift_apply (r : Except PyExc α) (m : Counters) : lift r m = ⟨[], m, r⟩ := rfl

/-! ### Programs that leave the counters alone -/

/-- A program that leaves the host's counter memory as it found it, as all
collector code but `derivative` does. -/
def Keeps (x : Coll α) : Prop := ∀ m, (x m).last = m

theorem keeps_pure (a : α) : Keeps (pure a : Coll α) := fun _ => rfl

theorem keeps_emit (e : Effect) : Keeps (emit e) := fun _ => rfl

theorem keeps_raise (e : PyExc) : Keeps (raise e : Coll α) := fun _ => rfl

theorem keeps_lift (r : Except PyExc α) : Keeps (lift r) := fun _ => rfl

theorem Keeps.bind {x : Coll α} {f : α → Coll β} (hx : Keeps x) (hf : ∀ a, Keeps (f a)) :
    Keeps (x >>= f) := by
  intro m
  rw [bind_apply]
  cases h : (x m).result with
  | ok a => rw [Outcome.bind_of_ok h, hf a, hx]
  | error e => rw [Outcome.bind_of_error h, hx]

/-! ### Loops -/

/-- `for x in xs: body(x)` -/
def forEach (body : α → Coll Unit) : List α → Coll Unit
  | [] => pure ()
  | x :: xs => do
    body x
    forEach body xs

/-- What a loop amounts to when no step touches the counters: the effects of
the steps up to and including the first that raises, and its exception. -/
def runSteps (body : α → Coll Unit) (m : Counters) : List α → List Effect × Except PyExc Unit
  | [] => ([], .ok ())
  | x :: xs =>
    match (body x m).result with
    | .ok _ => ((body x m).effects ++ (runSteps body m xs).1, (runSteps body m xs).2)
    | .error e => ((body x m).effects, .error e)

theorem forEach_eq {body : α → Coll Unit} (hlast : ∀ x m, (body x m).last = m) (m : Counters) :
    ∀ xs, forEach body xs m = ⟨(runSteps body m xs).1, m, (runSteps body m xs).2⟩
  | [] => rfl
  | x :: xs => by
    simp only [forEach, bind_apply, Outcome.bind, runSteps, hlast]
    cases (body x m).result <;> simp [forEach_eq hlast m xs]

theorem keeps_forEach {body : α → Coll Unit} (hbody : ∀ x, Keeps (body x)) :
    ∀ xs, Keeps (forEach body xs)
  | [] => keeps_pure ()
  | x :: xs => (hbody x).bind fun _ => keeps_forEach hbody xs

/-- A step that does nothing can be dropped from a loop. -/
theorem runSteps_filter {body : α → Coll Unit} {m : Counters} (p : α → Bool)
    (hskip : ∀ x, p x = false → body x m = ⟨[], m, .ok ()⟩) :
    ∀ xs, runSteps body m (xs.filter p) = runSteps body m xs
  | [] => rfl
  | x :: xs => by
    by_cases hx : p x
    · simp only [List.filter_cons, hx, if_true, runSteps, runSteps_filter p hskip xs]
    · simp [List.filter_cons, hx, runSteps, hskip x (by simpa using hx), runSteps_filter p hskip xs]

/-! ### The host's API -/

/-- `self.publish(name, value, precision)` -/
def publish (name : List Char) (v : Value) (precision : Option Nat) : Coll Unit :=
  emit (.publish name v .plain precision)

/-- `self.publish_gauge(name, value, precision)` -/
def publishGauge (name : List Char) (v : Value) (precision : Option Nat) : Coll Unit :=
  emit (.publish name v .gauge precision)

/-- `self.publish_counter(name, value, precision)` -/
def publishCounter (name : List Char) (v : Value) (precision : Option Nat) : Coll Unit :=
  emit (.publish name v .counter precision)

/-- `self.log.error(msg)`, and `self.log.exception(msg)`, which logs at error level. -/
def logError (msg : List Char) : Coll Unit := emit (.log .error msg)

/-- `self.log.debug(msg)` -/
def logDebug (msg : List Char) : Coll Unit := emit (.log .debug msg)

/-! ### What a program can return -/

/-- Every value `x` returns, from any counter memory, satisfies `Q`. -/
def Returns (Q : α → Prop) (x : Coll α) : Prop :=
  ∀ m a, (x m).result = .ok a → Q a

theorem returns_pure {Q : α → Prop} {a : α} (h : Q a) : Returns Q (pure a : Coll α) :=
  fun _ _ e => Except.ok.inj e ▸ h

theorem returns_lift {Q : α → Prop} {r : Except PyExc α} (h : ∀ a, r = .ok a → Q a) :
    Returns Q (lift r) :=
  fun _ a e => h a e

theorem Returns.bind {Q : α → Prop} {R : β → Prop} {x : Coll α} {f : α → Coll β}
    (hx : Returns Q x) (hf : ∀ a, Q a → Returns R (f a)) : Returns R (x >>= f) := by
  intro m b hb
  rw [bind_apply] at hb
  cases h : (x m).result with
  | ok a =>
    rw [Outcome.bind_of_ok h] at hb
    exact hf a (hx m a h) _ b hb
  | error e =>
    rw [Outcome.bind_of_error h] at hb
    cases hb

theorem Returns.lift_bind {R : β → Prop} {r : Except PyExc α} {f : α → Coll β}
    (hf : ∀ a, r = .ok a → Returns R (f a)) : Returns R (lift r >>= f) :=
  (returns_lift fun _ h => h).bind hf

/-! ### What a program can publish -/

/-- Every name `x` publishes, from any counter memory, satisfies `P`. -/
def PublishesOnly (P : List Char → Prop) (x : Coll α) : Prop :=
  ∀ m, ∀ n ∈ published (x m).effects, P n

section PublishesOnly

variable {P : List Char → Prop}

theorem publishesOnly_pure (a : α) : PublishesOnly P (pure a : Coll α) := fun _ _ h => nomatch h

theorem publishesOnly_raise (e : PyExc) : PublishesOnly P (raise e : Coll α) :=
  fun _ _ h => nomatch h

theorem publishesOnly_lift (r : Except PyExc α) : PublishesOnly P (lift r) := fun _ _ h => nomatch h

theorem publishesOnly_logError (msg : List Char) : PublishesOnly P (logError msg) :=
  fun _ _ h => nomatch h

theorem publishesOnly_publish {name : List Char} (h : P name) (v : Value) (precision : Option Nat) :
    PublishesOnly P (publish name v precision) := by
  intro m n hn
  rw [publish, emit_apply, published, published, List.mem_singleton] at hn
  exact hn ▸ h

/-- A sequence, where what follows knows a property of what was returned. -/
theorem PublishesOnly.bind_of_returns {Q : α → Prop} {x : Coll α} {f : α → Coll β}
    (hx : PublishesOnly P x) (hQ : Returns Q x) (hf : ∀ a, Q a → PublishesOnly P (f a)) :
    PublishesOnly P (x >>= f) := by
  intro m n hn
  rw [bind_apply] at hn
  cases h : (x m).result with
  | ok a =>
    rw [Outcome.bind_of_ok h, published_append, List.mem_append] at hn
    exact hn.elim (hx m n) (hf a (hQ m a h) _ n)
  | error e =>
    rw [Outcome.bind_of_error h] at hn
    exact hx m n hn

theorem PublishesOnly.bind {x : Coll α} {f : α → Coll β} (hx : PublishesOnly P x)
    (hf : ∀ a, PublishesOnly P (f a)) : PublishesOnly P (x >>= f) :=
  hx.bind_of_returns (Q := fun _ => True) (fun _ _ _ => trivial) fun a _ => hf a

/-- After a Python call only what follows a return can publish, and it knows
what was returned. -/
theorem PublishesOnly.lift_bind {r : Except PyExc α} {f : α → Coll β}
    (hf : ∀ a, r = .ok a → PublishesOnly P (f a)) : PublishesOnly P (lift r >>= f) :=
  (publishesOnly_lift r).bind_of_returns (returns_lift fun _ h => h) hf

theorem publishesOnly_forEach {body : α → Coll Unit} :
    ∀ {xs : List α}, (∀ x ∈ xs, PublishesOnly P (body x)) → PublishesOnly P (forEach body xs)
  | [], _ => publishesOnly_pure ()
  | x :: _, h => (h x (List.mem_cons_self _ _)).bind fun _ =>
      publishesOnly_forEach fun y hy => h y (List.mem_cons_of_mem _ hy)

theorem PublishesOnly.mono {Q : List Char → Prop} {x : Coll α} (hx : PublishesOnly P x)
    (h : ∀ n, P n → Q n) : PublishesOnly Q x :=
  fun m n hn => h n (hx m n hn)

end PublishesOnly

/-- The change the spec's derivative reports for a raw value `new` after `old`:
`new - old`, or `(modulus - old) + new` when the value went down and a modulus is
given.  With no earlier value it is 0, the first of the two choices the spec
leaves open.

This is the formula of §8 as written.  The invariant of §3, that no negative
delta is visible downstream, is not built in: the formula is negative when
the value went down and no modulus is given, as for UDP, or when `old`
exceeds the modulus, and it is then reported as it is. -/
def delta : Option ℚ → ℚ → Option ℚ → ℚ
  | none, _, _ => 0
  | some old, new, modulus =>
    if new < old then
      match modulus with
      | some m => (m - old) + new
      | none => new - old
    else new - old

/-- Modelled from the spec: the host's `derivative(name, raw_value, modulus?)`,
which is not in the repository.  It reports `delta` against the raw value kept
for `name`, as a per-interval amount, and keeps `new` for the next cycle. -/
def derivative (name : List Char) (new : ℚ) (modulus : Option ℚ) : Coll ℚ := fun m =>
  ⟨[], m.set name new, .ok (delta (m.get? name) new modulus)⟩

@[simp] theorem derivative_apply (name : List Char) (new : ℚ) (modulus : Option ℚ)
    (m : Counters) :
    derivative name new modulus m = ⟨[], m.set name new, .ok (delta (m.get? name) new modulus)⟩ :=
  rfl

/-! ### Files -/

/-- An open file: the bytes reads return, then the error a read past them
raises (`none` when they are the whole file). -/
structure FileText where
  bytes : List Char
  fault : Option PyExc

/-- A file whose every byte reads without error. -/
def FileText.ofBytes (s : List Char) : FileText := ⟨s, none⟩

/-- What `os.listdir` can return: distinct names, none empty, none holding a
`/`, neither `.` nor `..`. -/
def ValidListing (names : List (List Char)) : Prop :=
  names.Nodup ∧ ∀ n ∈ names, n ≠ [] ∧ '/' ∉ n ∧ n ≠ ['.'] ∧ n ≠ ['.', '.']

instance (names : List (List Char)) : Decidable (ValidListing names) :=
  inferInstanceAs (Decidable (_ ∧ _))

/-- The files a collector reads, as the calls it makes on them answer. -/
structure Fs where
  /-- `os.access(path, os.R_OK)` -/
  access : List Char → Bool
  /-- `os.path.isdir(path)` -/
  isdir : List Char → Bool
  /-- `os.path.exists(path)` -/
  pathExists : List Char → Bool
  /-- `os.listdir(path)` -/
  listdir : List Char → Except PyExc (List (List Char))
  /-- `open(path)` -/
  openFile : List Char → Except PyExc FileText
  listdir_valid : ∀ p names, listdir p = .ok names → ValidListing names

/-- A file system holding one readable file, `path`, whose bytes are `text`. -/
def Fs.withFile (path text : List Char) : Fs where
  access p := p = path
  isdir _ := false
  pathExists p := p = path
  listdir _ := .error .ioError
  openFile p := if p = path then .ok (FileText.ofBytes text) else .error .ioError
  listdir_valid _ _ h := nomatch h

/-- A file system given by its directories, with their listings, and its
readable files, with their bytes.  Every entry is readable; opening a directory
or a missing path raises `IOError`. -/
def Fs.ofEntries (dirs : List (List Char × List (List Char))) (files : List (List Char × List Char))
    (hdirs : ∀ d ∈ dirs, ValidListing d.2) : Fs where
  access p := p ∈ dirs.map Prod.fst ∨ p ∈ files.map Prod.fst
  isdir p := p ∈ dirs.map Prod.fst
  pathExists p := p ∈ dirs.map Prod.fst ∨ p ∈ files.map Prod.fst
  listdir p := match dirs.lookup p with
    | some names => .ok names
    | none => .error .ioError
  openFile p := match files.lookup p with
    | some text => .ok (FileText.ofBytes text)
    | none => .error .ioError
  listdir_valid p names h := by
    cases hl : dirs.lookup p with
    | none => simp [hl] at h
    | some ns =>
      simp only [hl, Except.ok.injEq] at h
      subst h
      obtain ⟨l₁, l₂, hd, -⟩ := List.lookup_eq_some_iff.mp hl
      exact hdirs _ (hd ▸ List.mem_append_right _ (List.mem_cons_self _ _))

/-- What a file system given by its entries opens: one of its files, with the
bytes it is given. -/
theorem Fs.openFile_ofEntries {dirs : List (List Char × List (List Char))}
    {files : List (List Char × List Char)} {hdirs : ∀ d ∈ dirs, ValidListing d.2} {p : List Char}
    {f : FileText} (h : (Fs.ofEntries dirs files hdirs).openFile p = .ok f) :
    ∃ text, (p, text) ∈ files ∧ f = FileText.ofBytes text := by
  cases hl : files.lookup p with
  | none => simp [Fs.ofEntries, hl] at h
  | some text =>
    simp only [Fs.ofEntries, hl, Except.ok.injEq] at h
    obtain ⟨l₁, l₂, hfiles, -⟩ := List.lookup_eq_some_iff.mp hl
    exact ⟨text, hfiles ▸ List.mem_append_right _ (List.mem_cons_self _ _), h.symm⟩

/-- The size of every `readline` the collectors make. -/
def readSize : Nat := 5000000

/-- `f.readline(size)` on an open file: the bytes read and the file after them. -/
def readlineFile (f : FileText) (size : Nat) : Coll (List Char × FileText) :=
  lift ((readline f.fault size f.bytes).map fun r => (r.1, ⟨r.2, f.fault⟩))

/-- `xs[i]` on a list: `IndexError` past its end. -/
def getItem (xs : List α) (i : Nat) : Except PyExc α :=
  match xs.get? i with
  | some x => .ok x
  | none => .error .indexError

@[simp] theorem getItem_cons_zero (x : α) (xs : List α) : getItem (x :: xs) 0 = .ok x := rfl

@[simp] theorem getItem_cons_succ (x : α) (xs : List α) (i : Nat) :
    getItem (x :: xs) (i + 1) = getItem xs i := rfl

@[simp] theorem getItem_nil (i : Nat) : getItem ([] : List α) i = .error .indexError := rfl

/-- `f.readlines()` on an open file: every line, then the read past the end,
which raises the file's fault if it has one. -/
def readlinesFile (f : FileText) : Coll (List (List Char)) :=
  lift (match f.fault with
    | none => .ok (readlines f.bytes)
    | some e => .error e)

/-- `os.path.join(a, b)` (posixpath): an absolute `b` replaces `a`. -/
def pathJoin (a b : List Char) : List Char :=
  if b.head? = some '/' then b
  else if a = [] ∨ a.getLast? = some '/' then a ++ b
  else a ++ '/' :: b

/-- `os.path.basename(p)`: what follows the last `/`. -/
def basename (p : List Char) : List Char :=
  ((p.splitOnP (· = '/')).getLast?).getD []

/-- Splitting at a separator between `xs` and `ys` splits each of them. -/
theorem splitOnP_append_cons {p : α → Bool} {sep : α} (hsep : p sep) :
    ∀ xs ys : List α, (xs ++ sep :: ys).splitOnP p = xs.splitOnP p ++ ys.splitOnP p
  | [], ys => by simp [List.splitOnP_cons, hsep, List.splitOnP_nil]
  | x :: xs, ys => by
    rw [List.cons_append, List.splitOnP_cons, List.splitOnP_cons p x xs,
      splitOnP_append_cons hsep xs ys]
    split
    · rfl
    · obtain ⟨z, zs, hz⟩ := List.exists_cons_of_ne_nil (List.splitOnP_ne_nil p xs)
      rw [hz]
      rfl

theorem splitOnP_slash_of_not_mem {n : List Char} (hn : '/' ∉ n) : n.splitOnP (· = '/') = [n] :=
  List.splitOnP_eq_single _ n fun _ hc h => hn (of_decide_eq_true h ▸ hc)

/-- The last component of a path ending in `/n`, for `n` without `/`. -/
theorem basename_append_slash (d : List Char) {n : List Char} (hn : '/' ∉ n) :
    basename (d ++ '/' :: n) = n := by
  rw [basename, splitOnP_append_cons (by decide) d n, splitOnP_slash_of_not_mem hn,
    List.getLast?_append]
  rfl

/-- `os.path.basename(os.path.join(d, n))` is `n`, for a name `n` without `/`. -/
theorem basename_pathJoin (d : List Char) {n : List Char} (hn : '/' ∉ n) :
    basename (pathJoin d n) = n := by
  unfold pathJoin
  rw [if_neg (show n.head? ≠ some '/' from fun h => hn (List.mem_of_mem_head? h))]
  split
  · next h =>
    rcases h with rfl | h
    · rw [List.nil_append, basename, splitOnP_slash_of_not_mem hn]
      rfl
    · obtain ⟨d', rfl⟩ := List.getLast?_eq_some_iff.1 h
      rw [List.append_assoc, List.singleton_append]
      exact basename_append_slash d' hn
  · exact basename_append_slash d hn

/-- `os.path.normpath(p)` (posixpath): drop empty and `.` components, let `..`
cancel the component before it, keep one or two leading slashes. -/
def normpath (p : List Char) : List Char :=
  if p = [] then ['.'] else
  let initial := if p.head? = some '/' then
      (if "//".toList.isPrefixOf p ∧ !"///".toList.isPrefixOf p then 2 else 1) else 0
  let comps := (p.splitOn '/').foldl (fun acc comp =>
      if comp = [] ∨ comp = ['.'] then acc
      else if comp ≠ ['.', '.'] ∨ (initial = 0 ∧ acc = []) ∨ acc.getLast? = some ['.', '.'] then
        acc ++ [comp]
      else acc.dropLast) []
  let q := List.replicate initial '/' ++ List.intercalate ['/'] comps
  if q = [] then ['.'] else q

/-- `os.path.abspath(p)` on an absolute path, the only kind the collectors pass. -/
def abspath (p : List Char) : List Char := normpath p

/-- The results of some effects for one metric name, in order. -/
def valuesOf (name : List Char) : List Effect → List Value
  | [] => []
  | .publish n v _ _ :: es => if n = name then v :: valuesOf name es else valuesOf name es
  | .log _ _ :: es => valuesOf name es

@[simp] theorem valuesOf_append (name : List Char) (es es' : List Effect) :
    valuesOf name (es ++ es') = valuesOf name es ++ valuesOf name es' := by
  induction es with
  | nil => rfl
  | cons e es ih =>
    rcases e with ⟨n, v, k, p⟩ | _
    · by_cases h : n = name <;> simp [valuesOf, h, ih]
    · simp [valuesOf, ih]

/-! ### The scheduler -/

/-- Modelled from the spec: the host calls a collector's `collect` once per
interval, one call at a time, on the files as they are at that time.  The
counter memory a call leaves is the one the next call starts from, whether the
call returned or raised. -/
def runCycles (cycle : Fs → Coll Unit) : Counters → List Fs → List (Outcome Unit)
  | _, [] => []
  | m, fs :: rest => cycle fs m :: runCycles cycle (cycle fs m).last rest

/-- **What a run publishes for one counter.**  If every cycle that completes
publishes for `n` the derivative of the value it reads against the memory's,
and leaves that value in the memory, then a run of completed cycles publishes
for `n` the derivative of each cycle's value against the value the cycle
before read. -/
theorem runCycles_values {cycle : Fs → Coll Unit} {n : List Char} {modulus : Option ℚ}
    {reads : Fs → ℚ → Prop}
    (hstep : ∀ fs v m, reads fs v → (cycle fs m).result = .ok () →
      valuesOf n (cycle fs m).effects = [.num (delta (m.get? n) v modulus)] ∧
        (cycle fs m).last.get? n = some v) :
    ∀ (states : List Fs) (vs : List ℚ) (m : Counters), List.Forall₂ reads states vs →
      (∀ o ∈ runCycles cycle m states, o.result = .ok ()) →
      (runCycles cycle m states).map (fun o => valuesOf n o.effects) =
        List.zipWith (fun prev v => [.num (delta prev v modulus)]) (m.get? n :: vs.map some) vs
  | [], [], _, .nil, _ => rfl
  | fs :: states, v :: vs, m, .cons hv hrest, hok => by
    obtain ⟨hval, hlast⟩ := hstep fs v m hv (hok _ (List.mem_cons_self _ _))
    have ih := runCycles_values hstep states vs (cycle fs m).last hrest
      fun o ho => hok o (List.mem_cons_of_mem _ ho)
    rw [hlast] at ih
    simp only [runCycles, List.map_cons, List.zipWith_cons_cons, hval, ih]

end Diamond
