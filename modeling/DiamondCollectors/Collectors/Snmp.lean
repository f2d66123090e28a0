/-
DiamondCollectors/Collectors/Snmp.lean

`IPCollector` and `UDPCollector`: both read `/proc/net/snmp`, seek the first
line starting with their protocol's label (`Ip`, `Udp`), take it as a header
and the line after it as the data row, and hand the pairs
`header[i] ↦ data[i]`, `1 ≤ i < len(header)`, to an allow-list filter.  They
differ only in the label, in the text of the error they log when the section
is missing, and in how a metric that passes the filter is published: IP as a
gauge or counter of the raw value, UDP through the host's `derivative`.

The shared reading loop is `readSnmp`; each collector's `collect` applies it to
its own label and message.  Lines are read with `readline(5_000_000)`, so a
"line" of the loop is a line of the file or its first 5,000,000 bytes.
-/
import DiamondCollectors.Host

namespace Diamond

/-! ### Configuration values -/

/-- A configuration value as the collectors find it: unset, a string, or a list
of strings. -/
inductive ConfigValue
  | none
  | str (s : List Char)
  | list (xs : List (List Char))
  deriving DecidableEq

/-- `len(v)`; `TypeError` on `None`. -/
def ConfigValue.len : ConfigValue → Except PyExc Nat
  | .none => .error .typeError
  | .str s => .ok s.length
  | .list xs => .ok xs.length

/-- `n in v`: a substring test on a string, an equality test on a list. -/
def ConfigValue.contains (v : ConfigValue) (n : List Char) : Bool :=
  match v with
  | .none => false
  | .str s => pyContains s n
  | .list xs => n ∈ xs

/-! ### The shared reading loop -/

/-- The seek loop on an open file whose unread bytes are `s`: read lines until
one starts with `pre`, then read one more line.  It returns `(header, data)`,
with `header = ''` when the end of the file comes first and `data = ''` when it
comes right after the header.  `fuel` bounds the iterations; each one reads at
least one byte, so `s.length + 1` is enough. -/
def seekLines (pre : List Char) (fault : Option PyExc) : Nat → List Char →
    Except PyExc (List Char × List Char)
  | 0, _ => .ok ([], [])
  | fuel + 1, s =>
    match readline fault readSize s with
    | .error e => .error e
    | .ok (line, rest) =>
      if line = [] then .ok ([], [])
      else if pre.isPrefixOf line then
        (readline fault readSize rest).map fun r => (line, r.1)
      else seekLines pre fault fuel rest

/-- The zip loop: `metrics[header[i]] = data[i]` for `i` in `xrange(1, len(header))`,
on the tokens after the labels; `IndexError` where `data` runs out first. -/
def zipMetrics : List (List Char) → List (List Char) → Dict (List Char) (List Char) →
    Except PyExc (Dict (List Char) (List Char))
  | [], _, d => .ok d
  | _ :: _, [], _ => .error .indexError
  | k :: ks, v :: vs, d => zipMetrics ks vs (d.set k v)

/-- The error logged for a file that cannot be read. -/
def permissionDenied (path : List Char) : List Char :=
  "Permission to access ".toList ++ path ++ " denied".toList

/-- The loop over `PROC`, building the `metrics` dict.  `pre` is the protocol's
label and `noLines` the error logged for a file without the section.  (The
source's `if not file` after `open` never holds: `open` returns a file or
raises.) -/
def readSnmp (pre : List Char) (noLines : List Char → List Char) (fs : Fs) :
    List (List Char) → Dict (List Char) (List Char) → Coll (Dict (List Char) (List Char))
  | [], metrics => pure metrics
  | path :: paths, metrics =>
    if fs.access path then do
      let f ← lift (fs.openFile path)
      let (header, data) ← lift (seekLines pre f.fault (f.bytes.length + 1) f.bytes)
      if header = [] ∨ data = [] then do
        logError (noLines path)
        readSnmp pre noLines fs paths metrics
      else do
        let metrics ← lift (zipMetrics (split header).tail (split data).tail metrics)
        readSnmp pre noLines fs paths metrics
    else do
      logError (permissionDenied path)
      readSnmp pre noLines fs paths metrics

/-- The publishing loop over `metrics.keys()`: each name the allow-list lets
through goes to `publishOne` with its raw value.  `len(allowed_names)` is taken
at each name, as the source does. -/
def publishAllowed (allowed : ConfigValue) (publishOne : List Char → List Char → Coll Unit) :
    List (List Char × List Char) → Coll Unit
  | [] => pure ()
  | (name, raw) :: rest => do
    let n ← lift allowed.len
    if 0 < n ∧ !allowed.contains name then publishAllowed allowed publishOne rest
    else do
      publishOne name raw
      publishAllowed allowed publishOne rest

/-- The `allowed_names` option, the one option `collect` reads. -/
structure SnmpConfig where
  allowedNames : ConfigValue

/-- `/proc/net/snmp`, the one file in both collectors' `PROC`. -/
def snmpPath : List Char := "/proc/net/snmp".toList

/-- The body both `collect`s share: read the section into `metrics`, then
publish what the allow-list lets through. -/
def collectSnmp (pre : List Char) (noLines : List Char → List Char)
    (publishOne : List Char → List Char → Coll Unit) (proc : List (List Char))
    (c : SnmpConfig) (fs : Fs) : Coll Unit := do
  let metrics ← readSnmp pre noLines fs proc Dict.empty
  publishAllowed c.allowedNames publishOne metrics.items

/-! ### `IPCollector` -/

namespace IPCollector

/-- `PROC` -/
def proc : List (List Char) := [snmpPath]

/-- `GAUGES` -/
def gauges : List (List Char) := ["Forwarding".toList, "DefaultTTL".toList]

/-- `get_default_config()['allowed_names']` -/
def defaultAllowedNames : ConfigValue :=
  .str ("InAddrErrors, InDelivers, InDiscards, ".toList ++
    "InHdrErrors, InReceives, InUnknownProtos, OutDiscards, ".toList ++
    "OutNoRoutes, OutRequests".toList)

/-- `process_config`: an unset `allowed_names` becomes `[]`. -/
def processConfig (c : SnmpConfig) : SnmpConfig :=
  if c.allowedNames = .none then ⟨.list []⟩ else c

/-- The error for a file without an `Ip` line. -/
def noLines (path : List Char) : List Char := path ++ " has no lines starting with Ip".toList

/-- One metric: `long` of its raw value, as a gauge if it is in `GAUGES`, else
as a counter, with precision 0. -/
def publishOne (name raw : List Char) : Coll Unit := do
  let value ← lift ((pyLong raw).elim (.error .valueError) .ok)
  if name ∈ gauges then publishGauge name (.num value) (some 0)
  else publishCounter name (.num value) (some 0)

/-- `IPCollector.collect` -/
def collect (c : SnmpConfig) (fs : Fs) : Coll Unit :=
  collectSnmp "Ip".toList noLines publishOne proc c fs

end IPCollector

/-! ### `UDPCollector` -/

namespace UDPCollector

/-- `PROC` -/
def proc : List (List Char) := [snmpPath]

/-- `get_default_config()['allowed_names']` -/
def defaultAllowedNames : ConfigValue :=
  .str ("InDatagrams, NoPorts, InErrors, ".toList ++
    "OutDatagrams, RcvbufErrors, SndbufErrors".toList)

/-- `process_config`: an unset `allowed_names` becomes `[]`. -/
def processConfig (c : SnmpConfig) : SnmpConfig :=
  if c.allowedNames = .none then ⟨.list []⟩ else c

/-- The error for a file without a `Udp` line. -/
def noLines (path : List Char) : List Char := path ++ " has no lines with Udp".toList

/-- One metric: the host's derivative of `long` of its raw value, published
with precision 0.  No modulus is passed. -/
def publishOne (name raw : List Char) : Coll Unit := do
  let value ← lift ((pyLong raw).elim (.error .valueError) .ok)
  let d ← derivative name value none
  publish name (.num d) (some 0)

/-- `UDPCollector.collect` -/
def collect (c : SnmpConfig) (fs : Fs) : Coll Unit :=
  collectSnmp "Udp".toList noLines publishOne proc c fs

end UDPCollector

/-! ### The two collectors as one family -/

/-- The two snmp collectors. -/
inductive SnmpProto
  | ip
  | udp
  deriving DecidableEq, Repr

namespace SnmpProto

/-- The label of the protocol's lines. -/
def pre : SnmpProto → List Char
  | ip => "Ip".toList
  | udp => "Udp".toList

/-- The error logged for a file without the protocol's section. -/
def noLines : SnmpProto → List Char → List Char
  | ip => IPCollector.noLines
  | udp => UDPCollector.noLines

/-- How one metric that passes the allow-list is published. -/
def publishOne : SnmpProto → List Char → List Char → Coll Unit
  | ip => IPCollector.publishOne
  | udp => UDPCollector.publishOne

/-- The collector's `collect`. -/
def collect : SnmpProto → SnmpConfig → Fs → Coll Unit
  | ip => IPCollector.collect
  | udp => UDPCollector.collect

theorem collect_eq (p : SnmpProto) :
    p.collect = collectSnmp p.pre p.noLines p.publishOne [snmpPath] := by
  cases p <;> rfl

end SnmpProto

end Diamond
