/-
DiamondCollectors/Collectors/Mesos.lean

`MesosCGroupCollector`.  It reads the agent's state document over HTTP and
builds the `containers` dict: the document's `flags` under the key `'flags'`,
and, for each executor of each framework, the four parts of its dotted
`source` under its `container` ID.  It then lists the subdirectories of
`<cgroups_hierarchy>/<aspect>/<cgroups_root>` for the aspects `cpuacct`, `cpu`
and `memory`, skips those whose name is not a key of `containers`, and
publishes the usage and `*.stat` lines of the others under
`environment.role.task.id.aspect.key`.

The agent is an `Http`: what `json.load(urllib2.urlopen(url))` returns for each
URL, or the exception it raises with its text.  `containers` maps the string
keys; a container ID that is a number, a Boolean or `null` goes under a key
that neither `'flags'` nor a directory name equals, and is left out.
-/
import DiamondCollectors.Py.Json

namespace Diamond

namespace MesosCGroupCollector

/-- The options the collector reads. -/
structure Config where
  mesosStatePath : List Char
  host : List Char
  port : List Char

/-- `get_default_config()`: `state.json` on `localhost:5051`. -/
def defaultConfig : Config := ⟨"state.json".toList, "localhost".toList, "5051".toList⟩

/-- The agent: for each URL, the document `json.load(urllib2.urlopen(url))`
returns, or the exception raised and its text. -/
abbrev Http := List Char → Except (PyExc × List Char) Json

/-- `"http://%s:%s/%s" % (host, port, mesos_state_path)` -/
def stateUrl (c : Config) : List Char :=
  "http://".toList ++ c.host ++ ":".toList ++ c.port ++ "/".toList ++ c.mesosStatePath

/-- The error logged for an unreadable document. -/
def readErrorMsg (err : List Char) : List Char := "Unable to read JSON response: ".toList ++ err

/-- `get_mesos_state()`: `HTTPError` and `ValueError` are logged and give `{}`;
any other exception leaves. -/
def getMesosState (c : Config) (http : Http) : Coll Json :=
  match http (stateUrl c) with
  | .ok doc => pure doc
  | .error (e, text) =>
    if e = .httpError ∨ e = .valueError then do
      logError (readErrorMsg text)
      pure (.obj [])
    else raise e

/-! ### `get_containers` -/

/-- A value of `containers`: the document's `flags`, or an executor's names. -/
inductive Entry
  | flags (v : Json)
  | executor (role environment task number : List Char)

/-- `containers[k][name]` -/
def Entry.getItem : Entry → List Char → Except PyExc Json
  | .flags v, name => v.getItem name
  | .executor role environment task number, name =>
    if name = "role".toList then .ok (.str role)
    else if name = "environment".toList then .ok (.str environment)
    else if name = "task".toList then .ok (.str task)
    else if name = "id".toList then .ok (.str number)
    else .error .keyError

/-- The `containers` dict. -/
abbrev Containers := Dict (List Char) Entry

/-- `containers[container] = entry`: a list or an object raises `TypeError`
(unhashable); a key that is not a string is left out. -/
def setContainer (containers : Containers) (container : Json) (entry : Entry) :
    Except PyExc Containers :=
  match container with
  | .str k => .ok (containers.set k entry)
  | .arr _ => .error .typeError
  | .obj _ => .error .typeError
  | _ => .ok containers

/-- One executor: `role, environment, task, number = source.split('.')`, then
`containers[container] = {...}`. -/
def addExecutor (containers : Containers) (executor : Json) : Except PyExc Containers := do
  let container ← executor.getItem "container".toList
  let source ← executor.getItem "source".toList
  match ← source.split '.' with
  | [role, environment, task, number] =>
    setContainer containers container (.executor role environment task number)
  | _ => .error .valueError

/-- `for executor in framework['executors']` -/
def addExecutors (containers : Containers) : List Json → Except PyExc Containers
  | [] => .ok containers
  | executor :: rest => (addExecutor containers executor).bind fun c => addExecutors c rest

/-- `for framework in state['frameworks']` -/
def addFrameworks (containers : Containers) : List Json → Except PyExc Containers
  | [] => .ok containers
  | framework :: rest => do
    let executors ← (← framework.getItem "executors".toList).iter
    let c ← addExecutors containers executors
    addFrameworks c rest

/-- `get_containers()` -/
def getContainers (c : Config) (http : Http) : Coll Containers := do
  let state ← getMesosState c http
  let flags ← lift (state.getItem "flags".toList)
  let containers := Dict.empty.set "flags".toList (.flags flags)
  if ← lift (state.contains "frameworks".toList) then
    let frameworks ← lift ((← lift (state.getItem "frameworks".toList)).iter)
    lift (addFrameworks containers frameworks)
  else pure containers

/-! ### `collect` -/

/-- The aspects `collect` goes through. -/
def aspects : List (List Char) := ["cpuacct".toList, "cpu".toList, "memory".toList]

/-- `containers[k]` -/
def lookupEntry (containers : Containers) (k : List Char) : Except PyExc Entry :=
  (containers.get? k).elim (.error .keyError) .ok

/-- A path component from the document: `os.path.join` raises
`AttributeError` on anything but a string. -/
def pathPart : Json → Except PyExc (List Char)
  | .str s => .ok s
  | _ => .error .attributeError

/-- A part of a `'.'.join`: `TypeError` on anything but a string. -/
def namePart : Json → Except PyExc (List Char)
  | .str s => .ok s
  | _ => .error .typeError

/-- `'.'.join(parts)` -/
def joinNames (parts : List Json) : Except PyExc (List Char) :=
  (parts.mapM namePart).map (List.intercalate ['.'])

/-- `clean_up(text)`: `/` becomes `.`. -/
def cleanUp (text : List Char) : List Char := text.map fun c => if c = '/' then '.' else c

/-- `for kv_pair in data`: `key, value = kv_pair.split()`, published as
`parts.key`. -/
def publishStatLines (parts : List Json) : List (List Char) → Coll Unit
  | [] => pure ()
  | line :: lines => do
    match split line with
    | [key, value] => do
      let name ← lift (joinNames (parts ++ [.str key]))
      publish (cleanUp name) (.text value) none
    | _ => raise .valueError
    publishStatLines parts lines

/-- What is done for a task directory `taskPath` once its key parts are built:
for `cpuacct` the first line of `cpuacct.usage`, then the lines of
`<aspect>.stat`. -/
def publishTask (fs : Fs) (aspect taskPath : List Char) (parts : List Json) : Coll Unit := do
  if aspect = "cpuacct".toList then
    let f ← lift (fs.openFile (pathJoin taskPath (aspect ++ ".usage".toList)))
    let (value, _) ← readlineFile f readSize
    let name ← lift (joinNames (parts ++ [.str "usage".toList]))
    publish (cleanUp name) (.text value) none
  let f ← lift (fs.openFile (pathJoin taskPath (aspect ++ ".stat".toList)))
  let data ← readlinesFile f
  publishStatLines parts data

/-- One iteration of `for task_id in ...`. -/
def collectTask (fs : Fs) (containers : Containers) (aspect aspectPath taskId : List Char) :
    Coll Unit := do
  if !containers.contains taskId then return
  let entry ← lift (lookupEntry containers taskId)
  let environment ← lift (entry.getItem "environment".toList)
  let role ← lift (entry.getItem "role".toList)
  let task ← lift (entry.getItem "task".toList)
  let number ← lift (entry.getItem "id".toList)
  publishTask fs aspect (pathJoin aspectPath taskId) [environment, role, task, number, .str aspect]

/-- One iteration of `for aspect in [...]`: the subdirectories of
`os.path.join(sysfs, aspect, cgroup_root)`, in listing order. -/
def collectAspect (fs : Fs) (containers : Containers) (sysfs root : Json) (aspect : List Char) :
    Coll Unit := do
  let base ← lift (pathPart sysfs)
  let r ← lift (pathPart root)
  let aspectPath := pathJoin (pathJoin base aspect) r
  let contents ← lift (fs.listdir aspectPath)
  forEach (collectTask fs containers aspect aspectPath)
    (contents.filter fun entry => fs.isdir (pathJoin aspectPath entry))

/-- `MesosCGroupCollector.collect` -/
def collect (c : Config) (http : Http) (fs : Fs) : Coll Unit := do
  let containers ← getContainers c http
  let flags ← lift (lookupEntry containers "flags".toList)
  let sysfs ← lift (flags.getItem "cgroups_hierarchy".toList)
  let root ← lift (flags.getItem "cgroups_root".toList)
  forEach (collectAspect fs containers sysfs root) aspects

end MesosCGroupCollector

end Diamond
