import Cberl.Connection.Responses
import Cberl.Nif.Connect
import Cberl.Support.CallProgram
import Mathlib.Logic.Function.Basic

/-!
# Connecting

The constructor `Connection::Connection` as a program over libcouchbase calls,
and the handler that `Client::connect` posts.  What libcouchbase answers is a
parameter.  The constructor equals a script: it creates the instance, makes one
`lcb_cntl` call for each recognised option in the order of the list, and then
connects and waits, and it stops at the first call that fails.
-/

namespace Cberl

open Cberl.Support Cberl.Support.CallProgram

/-! ## What libcouchbase is asked -/

/-- What libcouchbase reads through a pointer without a length: the bytes up to
the first zero byte. -/
def cStr (bytes : Bytes) : Bytes :=
  bytes.takeWhile (· ≠ 0)

/-- `lcb_create_st`, four pointers without lengths. -/
structure CreateOpts where
  host : Bytes
  user : Bytes
  passwd : Bytes
  bucket : Bytes

def CreateOpts.ofRequest (request : ConnectRequest) : CreateOpts :=
  { host := cStr request.host
    user := cStr request.username
    passwd := cStr request.password
    bucket := cStr request.bucket }

/-- The settings the constructor calls `lcb_cntl` for. -/
inductive Setting where
  | opTimeout
  | configurationTimeout
  | viewTimeout
  | durabilityTimeout
  | durabilityInterval
  | httpTimeout
  deriving DecidableEq

/-- The libcouchbase calls of the constructor that can fail. -/
inductive LcbCall where
  | create (opts : CreateOpts)
  | cntl (setting : Setting) (value : IntType.int32.Val)
  | connect
  | wait

abbrev LcbStatus := Option LcbError

/-! ## The constructor -/

/-- A constructor body: libcouchbase calls, and possibly an `lcb_error_t`
thrown. -/
abbrev Constructor := ExceptT LcbError (CallProgram LcbCall LcbStatus)

def lcbCall (call : LcbCall) : Constructor LcbStatus :=
  ExceptT.lift (perform call)

/-- `if (err != LCB_SUCCESS) throw err;` -/
def throwUnlessSuccess : LcbStatus → Constructor Unit
  | none => pure ()
  | some err => throw err

/-- One round of the loop over the options.  An unknown name leaves `err` as the
round before left it. -/
def applyOption (err : LcbStatus) (option : ConnectOption) :
    Constructor LcbStatus := do
  let err ←
    if option.name = "operation_timeout" then
      lcbCall (.cntl .opTimeout option.value)
    else if option.name = "config_total_timeout" then
      lcbCall (.cntl .configurationTimeout option.value)
    else if option.name = "view_timeout" then
      lcbCall (.cntl .viewTimeout option.value)
    else if option.name = "durability_timeout" then
      lcbCall (.cntl .durabilityTimeout option.value)
    else if option.name = "durability_interval" then
      lcbCall (.cntl .durabilityInterval option.value)
    else if option.name = "http_timeout" then
      lcbCall (.cntl .httpTimeout option.value)
    else
      pure err
  throwUnlessSuccess err
  return err

/-- `Connection::Connection` -/
def Connection.construct (request : ConnectRequest) : Constructor Unit := do
  let err ← lcbCall (.create (CreateOpts.ofRequest request))
  throwUnlessSuccess err
  let _ ← request.options.foldlM applyOption err
  let err ← lcbCall .connect
  throwUnlessSuccess err
  let err ← lcbCall .wait
  throwUnlessSuccess err

/-! ## The connect handler -/

/-- `ConnectResponse`: an error, or the resource that holds the connection. -/
structure ConnectResponse where
  result : Except LcbError ℕ

def ConnectResponse.toTerm (response : ConnectResponse) : Term :=
  match response.result with
  | .ok connection => .tuple [.atom "ok", .other connection]
  | .error err => err.toTerm

/-- The handler `Client::connect` posts, with the exchanges it has had with
libcouchbase when it calls back. -/
def Client.connect (lcb : Environment LcbCall LcbStatus) (connection : ℕ)
    (request : ConnectRequest) : ConnectResponse × List (LcbCall × LcbStatus) :=
  match run lcb [] (Connection.construct request).run with
  | (.ok (), log) => ({ result := .ok connection }, log)
  | (.error err, log) => ({ result := .error err }, log)

/-! ## The constructor is a script -/

/-- The option name of a setting. -/
def Setting.name : Setting → String
  | opTimeout => "operation_timeout"
  | configurationTimeout => "config_total_timeout"
  | viewTimeout => "view_timeout"
  | durabilityTimeout => "durability_timeout"
  | durabilityInterval => "durability_interval"
  | httpTimeout => "http_timeout"

def Setting.all : List Setting :=
  [opTimeout, configurationTimeout, viewTimeout, durabilityTimeout,
    durabilityInterval, httpTimeout]

/-- The setting an option is for, if its name is known. -/
def ConnectOption.setting (option : ConnectOption) : Option Setting :=
  Setting.all.find? fun setting => setting.name = option.name

/-- The call an option asks for. -/
def ConnectOption.call (option : ConnectOption) : Option LcbCall :=
  option.setting.map fun setting => .cntl setting option.value

theorem ConnectOption.setting_eq_some_iff {option : ConnectOption}
    {setting : Setting} :
    option.setting = some setting ↔ option.name = setting.name := by
  constructor
  · intro h
    have hname := List.find?_some h
    simpa using (of_decide_eq_true hname).symm
  · intro h
    rw [ConnectOption.setting, h]
    cases setting <;> decide

/-- The calls after `lcb_create`. -/
def ConnectRequest.calls (request : ConnectRequest) : List LcbCall :=
  request.options.filterMap ConnectOption.call ++ [.connect, .wait]

theorem attempt_eq (call : LcbCall) :
    (attempt call : Constructor Unit) =
      lcbCall call >>= throwUnlessSuccess := by
  unfold attempt lcbCall
  congr 1
  funext status
  cases status <;> rfl

/-- With no error carried over, one round attempts the call the option asks for
and carries none over. -/
theorem applyOption_none (option : ConnectOption) :
    applyOption none option =
      script option.call.toList >>= fun _ => pure none := by
  cases hsetting : option.setting with
  | some setting =>
      have hname := ConnectOption.setting_eq_some_iff.mp hsetting
      have hround : applyOption none option =
          (do
            let err ← lcbCall (.cntl setting option.value)
            throwUnlessSuccess err
            return err) := by
        cases setting <;> simp [applyOption, hname, Setting.name]
      rw [hround, ConnectOption.call, hsetting]
      simp only [Option.map_some, Option.toList_some, script, attempt_eq,
        bind_assoc, pure_bind]
      congr 1
      funext status
      cases status <;> rfl
  | none =>
      have hunknown : ∀ setting : Setting, option.name ≠ setting.name := by
        intro setting hname
        have hsome := ConnectOption.setting_eq_some_iff.mpr hname
        rw [hsetting] at hsome
        cases hsome
      have hround : applyOption none option =
          (throwUnlessSuccess none >>= fun _ => pure none) := by
        have hop : option.name ≠ "operation_timeout" := hunknown .opTimeout
        have hconfig : option.name ≠ "config_total_timeout" :=
          hunknown .configurationTimeout
        have hview : option.name ≠ "view_timeout" := hunknown .viewTimeout
        have hdurability : option.name ≠ "durability_timeout" :=
          hunknown .durabilityTimeout
        have hinterval : option.name ≠ "durability_interval" :=
          hunknown .durabilityInterval
        have hhttp : option.name ≠ "http_timeout" := hunknown .httpTimeout
        simp [applyOption, hop, hconfig, hview, hdurability, hinterval, hhttp]
      rw [hround, ConnectOption.call, hsetting]
      rfl

/-- The loop over the options attempts their calls in the order of the list. -/
theorem foldlM_applyOption (options : List ConnectOption) :
    options.foldlM applyOption none =
      script (options.filterMap ConnectOption.call) >>= fun _ => pure none := by
  induction options with
  | nil => rfl
  | cons option options ih =>
      have hcalls : (option :: options).filterMap ConnectOption.call =
          option.call.toList ++ options.filterMap ConnectOption.call := by
        rw [List.filterMap_cons]
        cases option.call <;> rfl
      rw [List.foldlM_cons, applyOption_none, hcalls, script_append]
      simp only [bind_assoc, pure_bind, ih]

/-- The constructor is the script of its calls. -/
theorem Connection.construct_eq_script (request : ConnectRequest) :
    Connection.construct request =
      script (.create (CreateOpts.ofRequest request) :: request.calls) := by
  have hloop : Connection.construct request =
      (do
        attempt (.create (CreateOpts.ofRequest request))
        let _ ← request.options.foldlM applyOption none
        attempt .connect
        attempt .wait) := by
    simp only [Connection.construct, attempt_eq, bind_assoc]
    congr 1
    funext status
    cases status <;> rfl
  rw [hloop, foldlM_applyOption, script, ConnectRequest.calls, script_append]
  simp only [script, bind_assoc, pure_bind, bind_pure_unit]

/-- The connect handler after a successful `lcb_create`. -/
theorem Client.connect_of_created
    {lcb : Environment LcbCall LcbStatus} {request : ConnectRequest}
    (hcreate : lcb [] (.create (CreateOpts.ofRequest request)) = none)
    (connection : ℕ) :
    Client.connect lcb connection request =
      match run lcb [(.create (CreateOpts.ofRequest request), none)]
        (script request.calls : Constructor Unit).run with
      | (.ok (), log) => ({ result := .ok connection }, log)
      | (.error err, log) => ({ result := .error err }, log) := by
  rw [Client.connect, Connection.construct_eq_script,
    run_script_cons_of_none hcreate, List.nil_append]

end Cberl
