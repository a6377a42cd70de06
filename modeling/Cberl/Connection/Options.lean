import Cberl.Connection.Create
import Cberl.Support.Override

/-!
# Connect options as an ordered override

libcouchbase's settings after the exchanges of a connect.  When every call is
accepted they are the defaults overridden by the recognised options; otherwise
the connect answers with the error of the first call that failed, and that call
is the last one.
-/

namespace Cberl

open Cberl.Support Cberl.Support.CallProgram

/-- The values of the six settings. -/
abbrev Settings := Setting → IntType.int32.Val

/-- An accepted `lcb_cntl` replaces a setting; no other call touches them. -/
def Settings.exchange (settings : Settings) : LcbCall × LcbStatus → Settings
  | (.cntl setting value, none) => Function.update settings setting value
  | _ => settings

/-- The settings after a sequence of exchanges. -/
def Settings.after (defaults : Settings) (log : List (LcbCall × LcbStatus)) :
    Settings :=
  log.foldl Settings.exchange defaults

/-- The value of the last option with the name of a setting, or the default. -/
def Settings.lastOption (defaults : Settings) (options : List ConnectOption)
    (setting : Setting) : IntType.int32.Val :=
  match (options.filter fun option => option.name = setting.name).getLast? with
  | some option => option.value
  | none => defaults setting

/-! ## Accepted calls -/

/-- The write an option asks for. -/
def ConnectOption.write (option : ConnectOption) :
    Option (Setting × IntType.int32.Val) :=
  option.setting.map fun setting => (setting, option.value)

theorem Settings.after_accepted_options (defaults : Settings)
    (options : List ConnectOption) :
    defaults.after (accepted (options.filterMap ConnectOption.call)) =
      override defaults (options.filterMap ConnectOption.write) := by
  induction options generalizing defaults with
  | nil => rfl
  | cons option options ih =>
      cases hsetting : option.setting with
      | none =>
          have hcall : option.call = none := by
            rw [ConnectOption.call, hsetting, Option.map_none]
          have hwrite : option.write = none := by
            rw [ConnectOption.write, hsetting, Option.map_none]
          rw [List.filterMap_cons_none hcall, List.filterMap_cons_none hwrite]
          exact ih defaults
      | some setting =>
          have hcall : option.call = some (.cntl setting option.value) := by
            rw [ConnectOption.call, hsetting, Option.map_some]
          have hwrite : option.write = some (setting, option.value) := by
            rw [ConnectOption.write, hsetting, Option.map_some]
          rw [List.filterMap_cons_some hcall, List.filterMap_cons_some hwrite]
          exact ih (Function.update defaults setting option.value)

theorem filter_write (options : List ConnectOption) (setting : Setting) :
    (options.filterMap ConnectOption.write).filter (fun write => write.1 = setting) =
      (options.filter fun option => option.name = setting.name).map
        fun option => (setting, option.value) := by
  induction options with
  | nil => rfl
  | cons option options ih =>
      by_cases hname : option.name = setting.name
      · have hwrite : option.write = some (setting, option.value) := by
          rw [ConnectOption.write, ConnectOption.setting_eq_some_iff.mpr hname,
            Option.map_some]
        rw [List.filterMap_cons_some hwrite, List.filter_cons_of_pos (by simp),
          List.filter_cons_of_pos (by simpa using hname), List.map_cons, ih]
      · rw [List.filter_cons_of_neg (by simpa using hname), ← ih]
        cases hother : option.write with
        | none => rw [List.filterMap_cons_none hother]
        | some write =>
            have hne : write.1 ≠ setting := by
              rintro rfl
              obtain ⟨other, hsetting, rfl⟩ := Option.map_eq_some_iff.mp hother
              exact hname (ConnectOption.setting_eq_some_iff.mp hsetting)
            rw [List.filterMap_cons_some hother,
              List.filter_cons_of_neg (by simpa using hne)]

/-- The options override the defaults in the order of the list. -/
theorem Settings.override_eq_lastOption (defaults : Settings)
    (options : List ConnectOption) (setting : Setting) :
    override defaults (options.filterMap ConnectOption.write) setting =
      defaults.lastOption options setting := by
  rw [override_apply, lastWrite, filter_write, List.getLast?_map, lastOption]
  cases (options.filter fun option => option.name = setting.name).getLast? <;> rfl

/-- Unknown options and the relative order of different names make no
difference. -/
theorem Settings.lastOption_congr (defaults : Settings)
    {options options' : List ConnectOption}
    (h : ∀ setting : Setting,
      (options.filter fun option => option.name = setting.name) =
        options'.filter fun option => option.name = setting.name) :
    defaults.lastOption options = defaults.lastOption options' := by
  funext setting
  rw [lastOption, lastOption, h setting]

/-- The exchanges of a connect whose calls are all accepted leave the options
in effect. -/
theorem Settings.after_accepted_calls (defaults : Settings)
    (request : ConnectRequest) (opts : CreateOpts) (setting : Setting) :
    defaults.after ((.create opts, none) :: accepted request.calls) setting =
      defaults.lastOption request.options setting := by
  have hsplit : accepted request.calls =
      accepted (request.options.filterMap ConnectOption.call) ++
        ([(.connect, none), (.wait, none)] : List (LcbCall × LcbStatus)) := by
    simp [accepted, ConnectRequest.calls]
  have hcalls : defaults.after ((.create opts, none) :: accepted request.calls) =
      defaults.after (accepted (request.options.filterMap ConnectOption.call)) := by
    rw [hsplit, Settings.after, List.foldl_cons, List.foldl_append]
    rfl
  rw [hcalls, Settings.after_accepted_options, Settings.override_eq_lastOption]

/-! ## The connect handler -/

/-- After a successful `lcb_create`, a connect whose calls are all accepted
answers `{ok, Connection}` with the options in effect, as any list with the same
options of each name would have it.  Otherwise it answers `{error, Reason}` for
the first call that fails and makes no call after it. -/
theorem connect_applies_options
    (lcb : Environment LcbCall LcbStatus) (connection : ℕ)
    (defaults : Settings) (request : ConnectRequest)
    (hcreate : lcb [] (.create (CreateOpts.ofRequest request)) = none) :
    let created := [(LcbCall.create (CreateOpts.ofRequest request), none)]
    let reply := (Client.connect lcb connection request).1.toTerm
    let log := (Client.connect lcb connection request).2
    (Accepts lcb created request.calls →
      reply = .tuple [.atom "ok", .other connection] ∧
      log = created ++ accepted request.calls ∧
      (∀ setting, defaults.after log setting =
        defaults.lastOption request.options setting) ∧
      ∀ options : List ConnectOption,
        (∀ setting : Setting,
          (request.options.filter fun option => option.name = setting.name) =
            options.filter fun option => option.name = setting.name) →
        ∀ setting, defaults.after log setting =
          defaults.lastOption options setting) ∧
    (¬ Accepts lcb created request.calls →
      ∃ before call after err,
        request.calls = before ++ call :: after ∧
        Accepts lcb created before ∧
        lcb (created ++ accepted before) call = some err ∧
        reply = .tuple [.atom "error", .atom (errorMessage err)] ∧
        log = created ++ accepted before ++ [(call, some err)]) := by
  intro created reply log
  have hconnect := Client.connect_of_created hcreate connection
  constructor
  · intro haccepts
    rw [run_script_of_accepts haccepts] at hconnect
    have hlog : log = created ++ accepted request.calls :=
      congrArg Prod.snd hconnect
    have hsettings : ∀ setting, defaults.after log setting =
        defaults.lastOption request.options setting := by
      intro setting
      rw [hlog]
      exact defaults.after_accepted_calls request _ setting
    refine ⟨congrArg (fun outcome => outcome.1.toTerm) hconnect, hlog,
      hsettings, ?_⟩
    intro options hsame setting
    rw [hsettings, defaults.lastOption_congr hsame]
  · intro hfails
    obtain ⟨before, call, after, err, hcalls, hbefore, hcall⟩ :=
      exists_first_failure hfails
    rw [hcalls, run_script_of_fails hbefore hcall] at hconnect
    exact ⟨before, call, after, err, hcalls, hbefore, hcall,
      congrArg (fun outcome => outcome.1.toTerm) hconnect,
      congrArg Prod.snd hconnect⟩

/-- Two timeouts for operations with an unknown option between them: the
second one is in effect, as it is without the unknown option. -/
theorem connect_applies_options_repeated :
    let lcb : Environment LcbCall LcbStatus := fun _ _ => none
    let request : ConnectRequest :=
      { host := [], username := [], password := [], bucket := []
        options :=
          [⟨"operation_timeout", ⟨250, by decide⟩⟩,
            ⟨"retries", ⟨3, by decide⟩⟩,
            ⟨"operation_timeout", ⟨750, by decide⟩⟩] }
    let defaults : Settings := fun _ => ⟨100, by decide⟩
    (Client.connect lcb 4 request).1.toTerm = .tuple [.atom "ok", .other 4] ∧
      (defaults.after (Client.connect lcb 4 request).2 .opTimeout).val = 750 := by
  intro lcb request defaults
  obtain ⟨hreply, -, -, hsettings⟩ :=
    (connect_applies_options lcb 4 defaults request rfl).1 fun _ _ _ _ => rfl
  refine ⟨hreply, ?_⟩
  rw [hsettings [⟨"operation_timeout", ⟨250, by decide⟩⟩,
    ⟨"operation_timeout", ⟨750, by decide⟩⟩] (fun setting => by
      cases setting <;> rfl)]
  decide

end Cberl
