/-
DiamondCollectors/Collectors/Memcached.lean

`MemcachedCollector`.  For each configured host spec `[alias@]host[:port]` it
asks the server for its `stats` over a socket (`get_raw_stats`), parses the
`STAT key value` lines of the answer into a dict (`get_stats`), and publishes
the configured keys, every key by default, as gauges or counters named
`alias.key`.

The network is a `Net`: for each host and port text, an `Endpoint` saying
whether the socket can be created, whether `connect` and `send` succeed, and
what the successive `recv(4096)` calls give.  Every failure of a socket call,
the 3 s timeout included, is a `socket.error`.  `/proc` is a `Procfs`: the
command line of each process, under its directory's name.  Python 2's
`stats.keys()` is taken in insertion order.
-/
import DiamondCollectors.Py.Re
import DiamondCollectors.Collectors.Snmp

namespace Diamond

/-- `for x in v` over a configuration value: the items of a list, the
one-character strings of a string; `TypeError` on `None`. -/
def ConfigValue.iter : ConfigValue → Except PyExc (List (List Char))
  | .none => .error .typeError
  | .str s => .ok (s.map fun c => [c])
  | .list xs => .ok xs

/-! ### Sockets -/

/-- What one `sock.recv(4096)` gives: bytes (`''` once the peer has closed), or
a `socket.error`: a reset, or the timeout. -/
inductive Recv
  | bytes (b : List Char)
  | error
  deriving DecidableEq

/-- The server at one address as `get_raw_stats` meets it.  Once `recvs` runs
out the server sends nothing more, and the next `recv` times out. -/
structure Endpoint where
  /-- `socket.socket(...)` succeeds. -/
  create : Bool
  /-- `sock.connect(...)` succeeds. -/
  connect : Bool
  /-- `sock.send('stats\n')` succeeds. -/
  send : Bool
  /-- What the successive `recv` calls give. -/
  recvs : List Recv

/-- The servers, by the host and the port text `get_raw_stats` is given. -/
abbrev Net := List Char → Option (List Char) → Endpoint

/-! ### `/proc` -/

/-- The name of a process directory of `/proc`: a pid in decimal. -/
def isPidName (s : List Char) : Bool :=
  s ≠ [] && s.all isDigit && s.head? ≠ some '0'

/-- `/proc` as `get_stats` reads it: the `cmdline` file of each process
directory; nothing else there has one. -/
structure Procfs where
  cmdline : List Char → Option FileText
  cmdline_pid : ∀ name f, cmdline name = some f → isPidName name = true

/-- `open("/proc/%s/cmdline" % pid)` -/
def Procfs.openCmdline (pfs : Procfs) (pid : List Char) : Except PyExc FileText :=
  (pfs.cmdline pid).elim (.error .ioError) .ok

namespace MemcachedCollector

/-! ### `get_raw_stats` -/

/-- `data.endswith('END\r\n')` -/
def endsWithEnd (data : List Char) : Bool := "END\r\n".toList.isSuffixOf data

/-- The `while True` receive loop from `data`: the data when it stops, and
whether a `socket.error` stopped it. -/
def recvLoop : List Char → List Recv → List Char × Bool
  | data, [] => (data, true)
  | data, .error :: _ => (data, true)
  | data, .bytes b :: rs =>
    if b = [] then (data, false)
    else if endsWithEnd (data ++ b) then (data ++ b, false)
    else recvLoop (data ++ b) rs

/-- The port check of `sock.connect((host, int(port)))`: `int(port)` raises
`ValueError` on a non-number, `connect` raises `OverflowError` outside
0-65535. -/
def portError : Option (List Char) → Option PyExc
  | none => none
  | some p => match pyInt p with
    | none => some .valueError
    | some n => if n < 0 ∨ 65535 < n then some .overflowError else none

/-- The `try` block of `get_raw_stats`: whether `sock` got bound, the data read,
and the exception that left the block, if any. -/
def exchange (ep : Endpoint) (port : Option (List Char)) : Bool × List Char × Option PyExc :=
  if !ep.create then (false, [], some .socketError)
  else match portError port with
    | some e => (true, [], some e)
    | none =>
      if !ep.connect || !ep.send then (true, [], some .socketError)
      else
        let r := recvLoop [] ep.recvs
        (true, r.1, if r.2 then some .socketError else none)

/-- `'%s' % x` for an optional string: `None` prints as `None`. -/
def showOpt : Option (List Char) → List Char
  | none => "None".toList
  | some s => s

/-- What `log.exception` writes for a failed exchange. -/
def failedMsg (host : List Char) (port : Option (List Char)) : List Char :=
  "Failed to get stats from ".toList ++ host ++ ":".toList ++ showOpt port

/-- `sock.close(); return data`: `UnboundLocalError` when `sock` never got bound. -/
def closeAndReturn (bound : Bool) (data : List Char) : Coll (List Char) :=
  if bound then pure data else raise .unboundLocalError

/-- `get_raw_stats(host, port)`: a `socket.error` is logged and the data read
before it is returned; any other exception leaves before `sock.close()`. -/
def getRawStats (ep : Endpoint) (host : List Char) (port : Option (List Char)) :
    Coll (List Char) :=
  match exchange ep port with
  | (bound, data, none) => closeAndReturn bound data
  | (bound, data, some e) =>
    if e = .socketError then do
      logError (failedMsg host port)
      closeAndReturn bound data
    else raise e

/-! ### `get_stats` -/

/-- `ignored`: the stats `get_stats` always skips. -/
def ignored : List (List Char) :=
  ["libevent", "pointer_size", "time", "version", "repcached_version", "replication",
    "accepting_conns", "pid"].map String.toList

/-- A value: `float` when it holds a `.`, else `int`. -/
def statValue (s : List Char) : Except PyExc Value :=
  if '.' ∈ s then (pyFloat s).elim (.error .valueError) fun q => .ok (.num q)
  else (pyInt s).elim (.error .valueError) fun n => .ok (.num n)

/-- The parse loop's state: the `stats` dict and `pid`. -/
abbrev ParseState := Dict (List Char) Value × Option (List Char)

/-- One iteration of the parse loop, on one line of the data. -/
def parseLine (st : ParseState) (line : List Char) : Except PyExc ParseState := do
  let pieces := line.splitOn ' '
  if (← getItem pieces 0) ≠ "STAT".toList then return st
  let key ← getItem pieces 1
  if key ∈ ignored then return st
  if key = "pid".toList then return (st.1, some (← getItem pieces 2))
  let v ← statValue (← getItem pieces 2)
  return (st.1.set key v, st.2)

/-- `for line in data.splitlines()` -/
def parseLines (st : ParseState) : List (List Char) → Except PyExc ParseState
  | [] => .ok st
  | line :: lines => (parseLine st line).bind fun st' => parseLines st' lines

/-- `"pid %s" % pid` -/
def pidMsg (pid : Option (List Char)) : List Char := "pid ".toList ++ showOpt pid

/-- What is logged when the command line cannot be read. -/
def noCmdlineMsg : List Char := "Cannot parse command line options for memcached".toList

/-- The `try` block reading the connection limit off `/proc/<pid>/cmdline`. -/
def readMaxConn (pfs : Procfs) (pid : Option (List Char)) (stats : Dict (List Char) Value) :
    Coll (Dict (List Char) Value) := do
  let f ← lift (pfs.openCmdline (showOpt pid))
  let (line, _) ← readlineFile f readSize
  match maxConnRe.search line with
  | none => pure stats
  | some g => do
    logDebug ("limit connections ".toList ++ showOpt (g.group 1))
    pure (stats.set "limit_maxconn".toList (.text ((g.group 1).getD [])))

/-- `get_stats(host, port)`; its bare `except:` catches every exception of the
command-line read. -/
def getStats (ep : Endpoint) (pfs : Procfs) (host : List Char) (port : Option (List Char)) :
    Coll (Dict (List Char) Value) := do
  let data ← getRawStats ep host port
  let (stats, pid) ← lift (parseLines (Dict.empty, none) (splitlines data))
  logDebug (pidMsg pid)
  catching (fun _ => true) (readMaxConn pfs pid stats) fun _ => do
    logDebug noCmdlineMsg
    pure stats

/-! ### `collect` -/

/-- `GAUGES` -/
def gauges : List (List Char) :=
  ["bytes", "connection_structures", "curr_connections", "curr_items", "threads",
    "reserved_fds", "limit_maxbytes", "hash_power_level", "hash_bytes", "hash_is_expanding",
    "uptime"].map String.toList

/-- The options `collect` reads: `hosts`, and `publish` (`none` when unset). -/
structure Config where
  hosts : ConfigValue
  publish : Option ConfigValue

/-- `get_default_config()`: `hosts = ['localhost:11211']`, `publish` unset. -/
def defaultConfig : Config := ⟨.list ["localhost:11211".toList], none⟩

/-- `hosts`, a string becoming a one-item list. -/
def hostList : ConfigValue → Except PyExc (List (List Char))
  | .str s => .ok [s]
  | v => v.iter

/-- `self.config.get('publish', stats.keys())`, as `for stat in desired` goes
through it. -/
def desired (publish : Option ConfigValue) (stats : Dict (List Char) Value) :
    Except PyExc (List (List Char)) :=
  match publish with
  | none => .ok stats.keys
  | some v => v.iter

/-- The error for a configured key the server did not report. -/
def noSuchKeyMsg (stat : List Char) : List Char :=
  "No such key '".toList ++ stat ++ "' available, issue 'stats' for a full list".toList

/-- One iteration of `for stat in desired`. -/
def publishStat (label : List Char) (stats : Dict (List Char) Value) (stat : List Char) :
    Coll Unit :=
  match stats.get? stat with
  | some v =>
    if stat ∈ gauges then publishGauge (label ++ ".".toList ++ stat) v none
    else publishCounter (label ++ ".".toList ++ stat) v none
  | none => logError (noSuchKeyMsg stat)

/-- `for stat in desired` -/
def publishStats (label : List Char) (stats : Dict (List Char) Value) :
    List (List Char) → Coll Unit
  | [] => pure ()
  | stat :: rest => do
    publishStat label stats stat
    publishStats label stats rest

/-- Alias, hostname and port of a host spec: groups 2, 3 and 5 of
`hostSpecRe`, the alias defaulting to the hostname.  `AttributeError` when the
spec does not match.  (Group 3 takes part in every match.) -/
def parseHost (host : List Char) : Except PyExc (List Char × List Char × Option (List Char)) :=
  match hostSpecRe.search host with
  | none => .error .attributeError
  | some g =>
    let hostname := (g.group 3).getD []
    .ok ((g.group 2).getD hostname, hostname, g.group 5)

/-- One iteration of `for host in hosts`. -/
def collectHost (c : Config) (net : Net) (pfs : Procfs) (host : List Char) : Coll Unit := do
  let (label, hostname, port) ← lift (parseHost host)
  let stats ← getStats (net hostname port) pfs hostname port
  let keys ← lift (desired c.publish stats)
  publishStats label stats keys

/-- `for host in hosts` -/
def collectHosts (c : Config) (net : Net) (pfs : Procfs) : List (List Char) → Coll Unit
  | [] => pure ()
  | h :: hs => do
    collectHost c net pfs h
    collectHosts c net pfs hs

/-- `MemcachedCollector.collect` -/
def collect (c : Config) (net : Net) (pfs : Procfs) : Coll Unit := do
  let hosts ← lift (hostList c.hosts)
  collectHosts c net pfs hosts

end MemcachedCollector

end Diamond
