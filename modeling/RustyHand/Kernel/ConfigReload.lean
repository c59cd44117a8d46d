import Mathlib.Data.List.Induction
import RustyHand.Lib.JsonText
import RustyHand.Lib.Runs

/-!
# Hot reload of the configuration

`rusty-hand-kernel/src/config_reload.rs`, and `reload_config` and `apply_hot_actions` of
`kernel.rs`, with `ApprovalPolicy` of `rusty-hand-types/src/approval.rs`.  A section of the
configuration that is compared by its JSON text only is that text; `load_config` gives the
configuration that a reload reads.

* `KernelSettings`, `buildReloadPlan`, `validateConfigForReload`;
* `LiveKernel`, `reloadConfig`: the kernel with its live policy and its live cap;
* `follow`: a value that is written when it differs from a fixed base;
* `follows_iff`: the live values are those of the last file if and only if that file differs from
  the configuration of the boot, or no file did.
-/

namespace RustyHand
namespace ConfigReload

/-- `ApprovalPolicy`. -/
structure ApprovalPolicy where
  requireApproval : List String := []
  timeoutSecs : ℕ := 300
  autoApproveAutonomous : Bool := true
  deriving DecidableEq

namespace ApprovalPolicy

/-- `MAX_TOOL_NAME_LEN`. -/
def maxToolNameLen : ℕ := 64

/-- `MIN_TIMEOUT_SECS`. -/
def minTimeoutSecs : ℕ := 10

/-- `MAX_TIMEOUT_SECS`. -/
def maxTimeoutSecs : ℕ := 300

/-- The check of the names of the tools, from an index on. -/
def validateNames (isAlphanumeric : Char → Bool) : ℕ → List String → Except String Unit
  | _, [] => .ok ()
  | i, name :: names =>
    if name = "" then .error ("require_approval[" ++ toString i ++ "] must not be empty")
    else if maxToolNameLen < name.utf8ByteSize then
      .error ("require_approval[" ++ toString i ++ "] too long (" ++ toString name.utf8ByteSize ++
        " chars, max " ++ toString maxToolNameLen ++ ")")
    else if !name.toList.all fun c => isAlphanumeric c || c = '_' then
      .error ("require_approval[" ++ toString i ++ "] may only contain alphanumeric characters " ++
        "and underscores: \"" ++ name ++ "\"")
    else validateNames isAlphanumeric (i + 1) names

/-- `ApprovalPolicy::validate`. -/
def validate (isAlphanumeric : Char → Bool) (policy : ApprovalPolicy) : Except String Unit :=
  if policy.timeoutSecs < minTimeoutSecs then
    .error ("timeout_secs too small (" ++ toString policy.timeoutSecs ++ ", min " ++
      toString minTimeoutSecs ++ ")")
  else if maxTimeoutSecs < policy.timeoutSecs then
    .error ("timeout_secs too large (" ++ toString policy.timeoutSecs ++ ", max " ++
      toString maxTimeoutSecs ++ ")")
  else validateNames isAlphanumeric 0 policy.requireApproval

/-- `true` and `false` in JSON. -/
def boolText : Bool → List Char
  | true => "true".toList
  | false => "false".toList

theorem boolText_inj : ∀ b c : Bool, boolText b = boolText c → b = c := by decide

/-- What `serde_json::to_string` makes of a policy. -/
def toJson (policy : ApprovalPolicy) : List Char :=
  "\x7b\"require_approval\":".toList ++ (JsonText.strings policy.requireApproval ++
    (",\"timeout_secs\":".toList ++ (JsonText.decimal policy.timeoutSecs ++
      (",\"auto_approve_autonomous\":".toList ++
        (boolText policy.autoApproveAutonomous ++ "\x7d".toList)))))

/-- Policies with the same text are the same. -/
theorem toJson_inj {p q : ApprovalPolicy} : p.toJson = q.toJson ↔ p = q := by
  refine ⟨fun h => ?_, fun h => by rw [h]⟩
  unfold toJson at h
  obtain ⟨hnames, hrest⟩ := JsonText.strings_append_inj (List.append_cancel_left h)
  have hcomma : ",\"auto_approve_autonomous\":".toList =
    ',' :: "\"auto_approve_autonomous\":".toList := by decide
  rw [hcomma, List.cons_append] at hrest
  obtain ⟨htimeout, hauto⟩ :=
    JsonText.decimal_append_inj (by decide) (List.append_cancel_left hrest)
  have hbool := boolText_inj _ _ (List.append_cancel_right (List.append_cancel_left hauto))
  obtain ⟨names, timeout, auto⟩ := p
  obtain ⟨names', timeout', auto'⟩ := q
  simp_all

end ApprovalPolicy

/-- `ReloadMode`. -/
inductive ReloadMode
  | off
  | restart
  | hot
  | hybrid
  deriving DecidableEq

/-- `UsageFooterMode`. -/
inductive UsageFooterMode
  | off
  | tokens
  | cost
  | full
  deriving DecidableEq

/-- `KernelMode`. -/
inductive KernelMode
  | stable
  | default
  | dev
  deriving DecidableEq

/-- The derived `Debug`. -/
def KernelMode.debug : KernelMode → String
  | stable => "Stable"
  | default => "Default"
  | dev => "Dev"

/-- The JSON text of a section of the configuration; none if it cannot be serialized. -/
abbrev SectionText := Option String

/-- What a reload reads of `KernelConfig`. -/
structure KernelSettings where
  apiListen : String := "127.0.0.1:4200"
  apiKey : String := ""
  networkEnabled : Bool := false
  network : SectionText := none
  sharedSecret : String := ""
  memory : SectionText := none
  defaultModel : SectionText := none
  homeDir : String := ""
  dataDir : String := ""
  vault : SectionText := none
  channels : SectionText := none
  usageFooter : UsageFooterMode := .full
  web : SectionText := none
  browser : SectionText := none
  approval : ApprovalPolicy := {}
  maxCronJobs : ℕ := 500
  webhookTriggers : SectionText := none
  extensions : SectionText := none
  mcpServers : SectionText := none
  a2a : SectionText := none
  fallbackProviders : SectionText := none
  logLevel : String := "info"
  language : String := "en"
  mode : KernelMode := .default
  reloadMode : ReloadMode := .hybrid

/-- `HotAction`. -/
inductive HotAction
  | reloadChannels
  | reloadSkills
  | updateUsageFooter
  | reloadWebConfig
  | reloadBrowserConfig
  | updateApprovalPolicy
  | updateCronConfig
  | updateWebhookConfig
  | reloadExtensions
  | reloadMcpServers
  | reloadA2aConfig
  | reloadFallbackProviders
  deriving DecidableEq

/-- `ReloadPlan`. -/
structure ReloadPlan where
  restartRequired : Bool
  restartReasons : List String
  hotActions : List HotAction
  noopChanges : List String

/-- One item if a condition holds. -/
def onlyIf {α : Type} (condition : Bool) (item : α) : List α := if condition then [item] else []

/-- The reasons of a restart, in the order of the checks; `debugPath` is the `Debug` of a path. -/
def restartReasons (debugPath : String → String) (old new : KernelSettings) : List String :=
  onlyIf (old.apiListen ≠ new.apiListen)
      ("api_listen changed: " ++ old.apiListen ++ " -> " ++ new.apiListen) ++
    onlyIf (old.apiKey ≠ new.apiKey) "api_key changed" ++
    onlyIf (old.networkEnabled ≠ new.networkEnabled) "network_enabled changed" ++
    -- the secret is not serialized, so it is compared by itself
    onlyIf (old.network ≠ new.network || old.sharedSecret ≠ new.sharedSecret)
      "network config changed" ++
    onlyIf (old.memory ≠ new.memory) "memory config changed" ++
    onlyIf (old.defaultModel ≠ new.defaultModel) "default_model changed" ++
    onlyIf (old.homeDir ≠ new.homeDir)
      ("home_dir changed: " ++ debugPath old.homeDir ++ " -> " ++ debugPath new.homeDir) ++
    onlyIf (old.dataDir ≠ new.dataDir)
      ("data_dir changed: " ++ debugPath old.dataDir ++ " -> " ++ debugPath new.dataDir) ++
    onlyIf (old.vault ≠ new.vault) "vault config changed"

/-- The hot actions, in the order of the checks. -/
def hotActions (old new : KernelSettings) : List HotAction :=
  onlyIf (old.channels ≠ new.channels) HotAction.reloadChannels ++
    onlyIf (old.usageFooter ≠ new.usageFooter) HotAction.updateUsageFooter ++
    onlyIf (old.web ≠ new.web) HotAction.reloadWebConfig ++
    onlyIf (old.browser ≠ new.browser) HotAction.reloadBrowserConfig ++
    onlyIf (old.approval.toJson ≠ new.approval.toJson) HotAction.updateApprovalPolicy ++
    onlyIf (old.maxCronJobs ≠ new.maxCronJobs) HotAction.updateCronConfig ++
    onlyIf (old.webhookTriggers ≠ new.webhookTriggers) HotAction.updateWebhookConfig ++
    onlyIf (old.extensions ≠ new.extensions) HotAction.reloadExtensions ++
    onlyIf (old.mcpServers ≠ new.mcpServers) HotAction.reloadMcpServers ++
    onlyIf (old.a2a ≠ new.a2a) HotAction.reloadA2aConfig ++
    onlyIf (old.fallbackProviders ≠ new.fallbackProviders) HotAction.reloadFallbackProviders

/-- `build_reload_plan`. -/
def buildReloadPlan (debugPath : String → String) (old new : KernelSettings) : ReloadPlan where
  restartRequired := !(restartReasons debugPath old new).isEmpty
  restartReasons := restartReasons debugPath old new
  hotActions := hotActions old new
  noopChanges :=
    onlyIf (old.logLevel ≠ new.logLevel)
        ("log_level: " ++ old.logLevel ++ " -> " ++ new.logLevel) ++
      onlyIf (old.language ≠ new.language)
        ("language: " ++ old.language ++ " -> " ++ new.language) ++
      onlyIf (old.mode ≠ new.mode) ("mode: " ++ old.mode.debug ++ " -> " ++ new.mode.debug)

/-- `validate_config_for_reload`: the errors; none if the configuration is valid. -/
def validateConfigForReload (isAlphanumeric : Char → Bool) (config : KernelSettings) :
    List String :=
  onlyIf (config.apiListen = "") "api_listen cannot be empty" ++
    onlyIf (10000 < config.maxCronJobs) "max_cron_jobs exceeds reasonable limit (10000)" ++
    (match config.approval.validate isAlphanumeric with
      | .error e => ["approval policy: " ++ e]
      | .ok () => []) ++
    onlyIf (config.networkEnabled && config.sharedSecret = "")
      "network_enabled is true but network.shared_secret is empty"

/-- `should_apply_hot`. -/
def shouldApplyHot (mode : ReloadMode) (plan : ReloadPlan) : Bool :=
  match mode with
  | .off | .restart => false
  | .hot | .hybrid => !plan.hotActions.isEmpty

/-- The kernel: the configuration that it was booted with, the policy of its approval manager and
the cap of its cron scheduler. -/
structure LiveKernel where
  config : KernelSettings
  policy : ApprovalPolicy
  maxTotalJobs : ℕ

/-- The kernel that `boot_with_config` makes. -/
def boot (config : KernelSettings) : LiveKernel where
  config := config
  policy := config.approval
  maxTotalJobs := config.maxCronJobs

namespace LiveKernel

/-- What a hot action writes; the others reconnect servers or ask for a restart. -/
def applyHotAction (new : KernelSettings) (k : LiveKernel) : HotAction → LiveKernel
  | .updateApprovalPolicy => { k with policy := new.approval }
  | .updateCronConfig => { k with maxTotalJobs := new.maxCronJobs }
  | _ => k

/-- `apply_hot_actions`. -/
def applyHotActions (k : LiveKernel) (plan : ReloadPlan) (new : KernelSettings) : LiveKernel :=
  plan.hotActions.foldl (applyHotAction new) k

/-- What a reload takes from the standard library. -/
structure Std where
  isAlphanumeric : Char → Bool
  debugPath : String → String

/-- `reload_config`, with what `load_config` reads from the file; none if there is no file. -/
def reloadConfig (std : Std) (k : LiveKernel) (file : Option KernelSettings) :
    Except String ReloadPlan × LiveKernel :=
  match file with
  | none => (.error "Config file not found", k)
  | some new =>
    match validateConfigForReload std.isAlphanumeric new with
    | [] =>
      let plan := buildReloadPlan std.debugPath k.config new
      (.ok plan, if shouldApplyHot k.config.reloadMode plan then k.applyHotActions plan new else k)
    | errors => (.error ("Validation failed: " ++ "; ".intercalate errors), k)

/-- The kernel after a reload of the file with this configuration. -/
def reload (std : Std) (k : LiveKernel) (new : KernelSettings) : LiveKernel :=
  (k.reloadConfig std (some new)).2

end LiveKernel

/-! ### A value that follows a base -/

section

variable {α : Type*} [DecidableEq α] {base live : α} {xs : List α}

/-- A value is written when it differs from the base. -/
def follow (base live new : α) : α := if new = base then live else new

theorem foldl_follow_eq_base_iff :
    xs.foldl (follow base) live = base ↔ live = base ∧ ∀ x ∈ xs, x = base := by
  induction xs generalizing live with
  | nil => simp
  | cons x xs ih =>
    rw [List.foldl_cons, ih, List.forall_mem_cons, follow]
    by_cases hx : x = base
    · simp [hx]
    · simp [hx]

/-- The last value is what is live if and only if it differs from the base, or all do not. -/
theorem foldl_follow_eq_getLastD_iff : xs.foldl (follow base) base = xs.getLastD base ↔
    xs.getLastD base ≠ base ∨ ∀ x ∈ xs, x = base := by
  induction xs using List.reverseRecOn with
  | nil => simp
  | append_singleton xs x _ =>
    rw [List.foldl_append, List.foldl_cons, List.foldl_nil, List.getLastD_concat, follow]
    by_cases hx : x = base
    · rw [if_pos hx, hx, foldl_follow_eq_base_iff]
      simp only [List.forall_mem_append, List.forall_mem_singleton, ne_eq, not_true_eq_false,
        false_or, true_and, and_true]
    · simp [hx]

end

namespace LiveKernel

variable {std : Std} {k : LiveKernel} {base new : KernelSettings} {files : List KernelSettings}

/-- What the actions of a plan come to. -/
theorem foldl_applyHotAction (actions : List HotAction) (k : LiveKernel) :
    actions.foldl (applyHotAction new) k =
      { config := k.config
        policy := if .updateApprovalPolicy ∈ actions then new.approval else k.policy
        maxTotalJobs :=
          if .updateCronConfig ∈ actions then new.maxCronJobs else k.maxTotalJobs } := by
  induction actions generalizing k with
  | nil => simp
  | cons action actions ih =>
    rw [List.foldl_cons, ih]
    cases action <;> simp [applyHotAction]

theorem mem_onlyIf {α : Type} {condition : Bool} {item x : α} :
    x ∈ onlyIf condition item ↔ condition = true ∧ x = item := by
  unfold onlyIf
  cases condition <;> simp

/-- A reload that is applied writes what differs from the configuration of the boot. -/
theorem reload_eq (hmode : k.config.reloadMode = .hot ∨ k.config.reloadMode = .hybrid)
    (hvalid : validateConfigForReload std.isAlphanumeric new = []) :
    k.reload std new =
      { config := k.config
        policy := follow k.config.approval k.policy new.approval
        maxTotalJobs := follow k.config.maxCronJobs k.maxTotalJobs new.maxCronJobs } := by
  have hpolicy : HotAction.updateApprovalPolicy ∈ hotActions k.config new ↔
      k.config.approval ≠ new.approval := by
    simp [hotActions, mem_onlyIf, ApprovalPolicy.toJson_inj]
  have hcron : HotAction.updateCronConfig ∈ hotActions k.config new ↔
      k.config.maxCronJobs ≠ new.maxCronJobs := by
    simp [hotActions, mem_onlyIf]
  have happly : k.reload std new = (hotActions k.config new).foldl (applyHotAction new) k := by
    simp only [reload, reloadConfig, hvalid]
    -- with no actions there is nothing to apply
    have hnil : shouldApplyHot k.config.reloadMode (buildReloadPlan std.debugPath k.config new) =
        !(hotActions k.config new).isEmpty := by
      rcases hmode with hmode | hmode
      · rw [hmode]
        rfl
      · rw [hmode]
        rfl
    rw [hnil]
    cases hactions : hotActions k.config new with
    | nil => rfl
    | cons action actions =>
      show k.applyHotActions _ new = _
      rw [applyHotActions, buildReloadPlan, hactions]
  rw [happly, foldl_applyHotAction]
  simp only [hpolicy, hcron, follow, ne_eq, ite_not, @eq_comm _ new.approval,
    @eq_comm _ new.maxCronJobs]

/-- The live values are those of a configuration. -/
def Follows (k : LiveKernel) (last : KernelSettings) : Prop :=
  k.policy = last.approval ∧ k.maxTotalJobs = last.maxCronJobs

/-- The kernel after some files have been reloaded. -/
theorem run_reload (hmode : k.config.reloadMode = .hot ∨ k.config.reloadMode = .hybrid)
    (hvalid : ∀ new ∈ files, validateConfigForReload std.isAlphanumeric new = []) :
    Runs.run (reload std) k files =
      { config := k.config
        policy := (files.map KernelSettings.approval).foldl (follow k.config.approval) k.policy
        maxTotalJobs := (files.map KernelSettings.maxCronJobs).foldl
          (follow k.config.maxCronJobs) k.maxTotalJobs } := by
  induction files generalizing k with
  | nil => rfl
  | cons new files ih =>
    obtain ⟨hnew, hfiles⟩ := List.forall_mem_cons.1 hvalid
    rw [Runs.run_cons, reload_eq hmode hnew]
    exact ih hmode hfiles

/-- The last file differs in a value from the configuration of the boot, or no file does. -/
def LastDiffers {α : Type*} (f : KernelSettings → α) (base : KernelSettings)
    (files : List KernelSettings) : Prop :=
  f (files.getLastD base) ≠ f base ∨ ∀ new ∈ files, f new = f base

theorem foldl_follow_map_iff {α : Type*} [DecidableEq α] {f : KernelSettings → α} :
    (files.map f).foldl (follow (f base)) (f base) = f (files.getLastD base) ↔
      LastDiffers f base files := by
  have hlast : f (files.getLastD base) = (files.map f).getLastD (f base) := by
    rw [List.getLastD_eq_getLast?, List.getLastD_eq_getLast?, List.getLast?_map]
    cases files.getLast? with
    | none => rfl
    | some new => rfl
  unfold LastDiffers
  rw [hlast, foldl_follow_eq_getLastD_iff, List.forall_mem_map]

/-- After a run of edits, each of which is reloaded, the approval policy and the cap of the cron
jobs are those of the last file, if and only if for each of the two the last file differs from the
configuration of the boot or no file of the run does. -/
theorem follows_iff (std : Std) (base : KernelSettings) (files : List KernelSettings)
    (hmode : base.reloadMode = .hot ∨ base.reloadMode = .hybrid)
    (hvalid : ∀ new ∈ files, validateConfigForReload std.isAlphanumeric new = []) :
    (Runs.run (reload std) (boot base) files).Follows (files.getLastD base) ↔
      LastDiffers KernelSettings.approval base files ∧
        LastDiffers KernelSettings.maxCronJobs base files := by
  unfold Follows
  rw [run_reload (k := boot base) hmode hvalid]
  exact and_congr foldl_follow_map_iff foldl_follow_map_iff

/-- The standard library, for texts in ASCII. -/
def asciiStd : Std := ⟨Char.isAlphanum, fun path => path⟩

/-- The cap is raised for a while and set back, and so is the prompt before a tool. -/
def lentAndSetBack : List KernelSettings :=
  [{ maxCronJobs := 900
     approval := { requireApproval := ["shell_exec"], autoApproveAutonomous := false } }, {}]

/-- After that the raised cap and the prompt are still live. -/
theorem lentAndSetBack_not_follows :
    ¬(Runs.run (reload asciiStd) (boot {}) lentAndSetBack).Follows {} := by
  rintro ⟨-, hjobs⟩
  exact absurd hjobs (by decide)

/-- Two edits, neither of which restores the values of the boot. -/
theorem follows_iff_raised :
    (Runs.run (reload asciiStd) (boot {}) [{ maxCronJobs := 900 }, { maxCronJobs := 700 }]).Follows
      { maxCronJobs := 700 } :=
  (follows_iff asciiStd {} [{ maxCronJobs := 900 }, { maxCronJobs := 700 }] (Or.inr rfl)
    (by decide)).2 ⟨Or.inr (by decide), Or.inl (by decide)⟩

end LiveKernel
end ConfigReload
end RustyHand
