import AuroraRl.Lib.Dict
import AuroraRl.Lib.Python
import Mathlib.Data.List.Dedup
import Mathlib.Logic.Function.Basic

/-!
# The elastic inference pool

* `Model`, `AdapterState`, `ServerState`, `Pool` : what a server reports, and what the pool knows;
* `Session` : the pool during a call, with the answers to `/v1/models` so far;
* `syncServerAdapter`, `checkServerHealth`, `addServer`, `removeServer` : what is done for one server;
* `sync`, `syncWeights` : the calls; `forEach` : their loops.

Each call has the answers of the servers as an argument: a request may fail, and a server may have restarted before it.
-/

namespace AuroraRl.Elastic

/-- An entry of `/v1/models`; `root` is `none` where the field is null. -/
structure Model where
  id : String
  parent : Option String
  root : Option String

/-- The answer to `/v1/models`, `none` if the request fails. -/
abbrev Answer := Option (List Model)

structure AdapterState where
  name : Option String
  path : Option PurePath
  step : Int

inductive ServerStatus
  | discovering
  | syncing
  | ready
  | unhealthy
deriving DecidableEq

structure ServerState where
  status : ServerStatus
  loadedAdapter : Option AdapterState
  syncFailures : Nat

/-- The pool. Every server has an admin client. -/
structure Pool where
  baseModelName : String
  modelName : String
  servers : Dict String ServerState
  adminClients : List String
  desired : AdapterState
  hasClient : ∀ ip ∈ servers.keys, ip ∈ adminClients

/-! ## Adapters -/

section Adapter

variable [Unicode]

/-- The step in the last component of a path: `step_12` or `step-12`, and `0` for anything else. -/
def stepOf (name : String) : Int :=
  let parse (sep : Char) : Int :=
    match (name.toList.splitOn sep)[1]? with
    | none => 0
    | some part =>
      match Python.parseInt (String.ofList part) with
      | .ok step => step
      | .error _ => 0
  if "step_".toList.isPrefixOf name.toList then parse '_'
  else if "step-".toList.isPrefixOf name.toList then parse '-'
  else 0

/-- The first entry that `_get_loaded_adapter` does not skip. -/
def selects (desired : AdapterState) (modelName : String) (m : Model) : Bool :=
  if desired.name.getD "" ≠ "" then m.id = desired.name.getD ""
  else m.parent.getD "" ≠ "" ∧ m.parent = some modelName

/-- What `_get_loaded_adapter` makes of an answer. -/
def loadedAdapter (desired : AdapterState) (modelName : String) (answer : Answer) : Option AdapterState := do
  let models ← answer
  let m ← models.find? (selects desired modelName)
  let root ← m.root
  return ⟨some m.id, some (.ofString root), stepOf (PurePath.ofString root).name⟩

end Adapter

def adapterMatchesDesired (desired : AdapterState) (loaded : Option AdapterState) : Bool :=
  match desired.path, loaded with
  | none, _ => true
  | some _, none => false
  | some path, some adapter => adapter.path = some path ∨ (0 < desired.step ∧ adapter.step = desired.step)

/-! ## One server -/

/-- The pool during a call, and the answers to `/v1/models` since the call began. -/
structure Session where
  pool : Pool
  answers : String → List Answer

namespace Session

/-- A request to `/v1/models`. -/
def ask (s : Session) (ip : String) (answer : Answer) : Session :=
  { s with answers := Function.update s.answers ip (s.answers ip ++ [answer]) }

/-- `self._servers[ip] = server` for a server that has an admin client, which is kept. -/
def setServer (s : Session) (ip : String) (server : ServerState) : Session :=
  { s with pool :=
    { s.pool with
      servers := s.pool.servers.insert ip server
      adminClients := ip :: s.pool.adminClients.filter (· ≠ ip)
      hasClient := by
        intro ip' h
        obtain ⟨v, hv⟩ := Dict.mem_keys_iff.1 h
        rw [Dict.get?_insert] at hv
        by_cases heq : ip = ip'
        · rw [heq]
          exact List.mem_cons_self
        · rw [if_neg heq] at hv
          exact List.mem_cons_of_mem _ (List.mem_filter.2
            ⟨s.pool.hasClient ip' (Dict.mem_keys_iff.2 ⟨v, hv⟩), by simpa using Ne.symm heq⟩) } }

/-- `_remove_server`, up to closing the client. -/
def removeServer (s : Session) (ip : String) : Session :=
  { s with pool :=
    { s.pool with
      servers := s.pool.servers.erase ip
      adminClients := s.pool.adminClients.filter (· ≠ ip)
      hasClient := by
        intro ip' h
        obtain ⟨v, hv⟩ := Dict.mem_keys_iff.1 h
        rw [Dict.get?_erase] at hv
        by_cases heq : ip = ip'
        · rw [if_pos heq] at hv
          cases hv
        · rw [if_neg heq] at hv
          exact List.mem_filter.2 ⟨s.pool.hasClient ip' (Dict.mem_keys_iff.2 ⟨v, hv⟩), by simpa using Ne.symm heq⟩ } }

end Session

/-- What a server answers to `_check_server_health`. -/
structure Health where
  health : Bool
  models : Answer

/-- What a server answers to `_sync_server_adapter`. -/
structure Resync where
  before : Answer
  load : Bool
  after : Answer

section Calls

variable [Unicode]

def getLoadedAdapter (s : Session) (ip : String) (answer : Answer) : Session × Option AdapterState :=
  if ip ∈ s.pool.adminClients then (s.ask ip answer, loadedAdapter s.pool.desired s.pool.modelName answer)
  else (s, none)

/-- The second half of `_sync_server_adapter`: the query after the adapter was loaded. -/
def confirmAdapter (s : Session) (ip : String) (server : ServerState) (answer : Answer) : Session :=
  let (s, loaded) := getLoadedAdapter s ip answer
  if adapterMatchesDesired s.pool.desired loaded then
    s.setServer ip { server with loadedAdapter := loaded, status := .ready, syncFailures := 0 }
  else
    s.setServer ip { server with loadedAdapter := loaded, status := .unhealthy, syncFailures := server.syncFailures + 1 }

def syncServerAdapter (s : Session) (ip : String) (a : Resync) : Session :=
  match s.pool.servers.get? ip with
  | none => s
  | some server =>
    let (s, loaded) := getLoadedAdapter s ip a.before
    if adapterMatchesDesired s.pool.desired loaded then
      s.setServer ip { server with loadedAdapter := loaded, status := .ready }
    else
      let server := { server with loadedAdapter := loaded, status := .syncing }
      if s.pool.desired.name.getD "" ≠ "" ∧ s.pool.desired.path.isSome ∧ a.load = false then
        s.setServer ip { server with status := .unhealthy, syncFailures := server.syncFailures + 1 }
      else confirmAdapter s ip server a.after

omit [Unicode] in
def checkServerHealth (s : Session) (ip : String) (h : Health) : Session × Bool :=
  if h.health then
    (s.ask ip h.models, match h.models with
      | none => false
      | some models => models.any fun m => m.id = s.pool.baseModelName)
  else (s, false)

/-- `_add_server`; the second component is whether it returns. -/
def addServer (s : Session) (ip : String) (client closes : Bool) (h : Health) (a : Resync) : Session × Bool :=
  if client then
    let (s, healthy) := checkServerHealth s ip h
    if healthy then (syncServerAdapter (s.setServer ip ⟨.discovering, none, 0⟩) ip a, true) else (s, closes)
  else (s, true)

/-! ## The calls -/

omit [Unicode] in
/-- A loop over servers, left when its body raises. -/
def forEach (body : String → Session → Session × Bool) : List String → Session → Session × Bool
  | [], s => (s, true)
  | ip :: ips, s =>
    match body ip s with
    | (s, true) => forEach body ips s
    | (s, false) => (s, false)

/-- What the name service and the servers answer to a call of `sync`, and which clients close without an error. -/
structure SyncAnswers where
  discovered : List String
  client : String → Bool
  addHealth : String → Health
  addSync : String → Resync
  closes : String → Bool
  health : String → Health
  resync : String → Resync

/-- The body of the last loop of `sync`. -/
def checkServer (a : SyncAnswers) (ip : String) (s : Session) : Session × Bool :=
  if ip ∈ s.pool.adminClients then
    let (s, healthy) := checkServerHealth s ip (a.health ip)
    if healthy then
      if (s.pool.servers.get? ip).map (·.status) ≠ some .ready then (syncServerAdapter s ip (a.resync ip), true)
        else (s, true)
    else (s.removeServer ip, a.closes ip)
  else (s, true)

/-- `sync`; the second component is whether it returns. -/
def sync (pool : Pool) (a : SyncAnswers) : Session × Bool :=
  let known := pool.servers.keys
  let (s, ok) := forEach (fun ip s => addServer s ip (a.client ip) (a.closes ip) (a.addHealth ip) (a.addSync ip))
    (a.discovered.dedup.filter (· ∉ known)) ⟨pool, fun _ => []⟩
  if ok then
    let (s, ok) := forEach (fun ip s => (s.removeServer ip, a.closes ip)) (known.filter (· ∉ a.discovered)) s
    if ok then forEach (checkServer a) s.pool.servers.keys s else (s, false)
  else (s, false)

/-- `sync_weights`; the tasks of `gather` each touch their own server only. -/
def syncWeights (pool : Pool) (weightsPath : Option PurePath) (loraName : Option String) (step : Int)
    (a : String → Resync) : Session :=
  let desired := ⟨loraName, if loraName.getD "" ≠ "" then weightsPath else none, step⟩
  (forEach (fun ip s => (syncServerAdapter s ip (a ip), true)) pool.servers.keys
    ⟨{ pool with desired := desired }, fun _ => []⟩).1

end Calls

end AuroraRl.Elastic
