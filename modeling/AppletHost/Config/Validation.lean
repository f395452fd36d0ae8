import AppletHost.Config.Error
import AppletHost.Text.Blank
import AppletHost.Text.Search

/-!
# Checking settings

The checks run in a fixed order, and the first that fails is reported: server, apps, client, logging.
-/

namespace AppletHost.Config

/-- Fails with `fault` of the setting unless the condition holds. -/
def check (holds : Bool) (setting : String) (fault : Fault) : Except ConfigError Unit :=
  if holds then .ok () else .error (.invalid setting fault)

@[simp]
theorem check_eq_ok_iff {holds : Bool} {setting : String} {fault : Fault} :
    check holds setting fault = .ok () ↔ holds = true := by
  cases holds <;> simp [check]

/-- Checks one after another pass iff each of them does. -/
theorem bind_eq_ok_iff {first : Except ConfigError Unit} {rest : Unit → Except ConfigError Unit} :
    (first >>= rest) = .ok () ↔ first = .ok () ∧ rest () = .ok () := by
  cases first with
  | error e => exact iff_of_false nofun nofun
  | ok u => exact (and_iff_right rfl).symm

/-- The port lies outside the render range. -/
def outsideRange (s : Server) (last : Nat) (name : String) (port : Nat) :
    Except ConfigError Unit :=
  check (!(s.renderPortBase ≤ port && port ≤ last)) "server.render_port_base"
    (.rangeTaken s.renderPortBase last name port)

/-- Checks the server section. -/
def Server.validate (s : Server) : Except ConfigError Unit := do
  check (!Text.allBlank s.host.toList) "server.host" .emptyHost
  check (s.controlPort != 0) "server.control_port" .zeroPort
  check (s.pushPort != 0) "server.push_port" .zeroPort
  check (s.renderPortBase != 0) "server.render_port_base" .zeroPort
  check (s.controlPort != s.pushPort) "server.push_port" (.pushIsControl s.controlPort)
  check (s.renderPortLimit != 0) "server.render_port_limit" .noRenderPorts
  match s.renderPortEnd? with
  | none =>
    .error (.invalid "server.render_port_limit" (.rangeTooLong s.renderPortBase s.renderPortLimit))
  | some last =>
    outsideRange s last "control_port" s.controlPort
    outsideRange s last "push_port" s.pushPort

theorem outsideRange_eq_ok_iff {s : Server} {last : Nat} {name : String} {port : Nat} :
    outsideRange s last name port = .ok () ↔ port < s.renderPortBase ∨ last < port := by
  unfold outsideRange
  rw [check_eq_ok_iff, Bool.not_eq_true', Bool.and_eq_false_iff, decide_eq_false_iff_not,
    decide_eq_false_iff_not, Nat.not_le, Nat.not_le]

theorem Server.renderPortEnd?_eq_some_iff {s : Server} {last : Nat} :
    s.renderPortEnd? = some last ↔
      s.renderPortLimit ≠ 0 ∧ last + 1 = s.renderPortBase + s.renderPortLimit ∧ last ≤ lastPort := by
  unfold renderPortEnd?
  by_cases hlimit : s.renderPortLimit = 0
  · simp [hlimit]
  · simp only [hlimit, if_false]
    split <;> simp <;> omega

/-- What the server section has to be like to pass. -/
theorem Server.validate_eq_ok_iff (s : Server) :
    s.validate = .ok () ↔
      Text.allBlank s.host.toList = false ∧
        s.controlPort ≠ 0 ∧ s.pushPort ≠ 0 ∧ s.renderPortBase ≠ 0 ∧ s.controlPort ≠ s.pushPort ∧
        ∃ last, s.renderPortEnd? = some last ∧
          (s.controlPort < s.renderPortBase ∨ last < s.controlPort) ∧
          (s.pushPort < s.renderPortBase ∨ last < s.pushPort) := by
  unfold validate
  simp only [bind_eq_ok_iff, check_eq_ok_iff, Bool.not_eq_true', bne_iff_ne]
  cases hend : s.renderPortEnd? with
  | none => simp
  | some last =>
    have hlimit := (renderPortEnd?_eq_some_iff.1 hend).1
    simp [bind_eq_ok_iff, outsideRange_eq_ok_iff, hlimit]

/-- A file name that does not lead into another directory. -/
def isPlainName (name : String) : Bool :=
  name != "" && name.toList.all fun c => c != '/' && c != '\\'

/-- Checks the apps section. -/
def Apps.validate (a : Apps) : Except ConfigError Unit := do
  check (isPlainName a.templateFile) "apps.template_file" (.notPlainName a.templateFile)
  check (isPlainName a.scriptFile) "apps.script_file" (.notPlainName a.scriptFile)
  check (isPlainName a.styleFile) "apps.style_file" (.notPlainName a.styleFile)

theorem isPlainName_iff (name : String) :
    isPlainName name = true ↔ name ≠ "" ∧ '/' ∉ name.toList ∧ '\\' ∉ name.toList := by
  rw [isPlainName, Bool.and_eq_true, bne_iff_ne, List.all_eq_true]
  constructor
  · rintro ⟨hempty, hplain⟩
    exact ⟨hempty, fun h => by simpa using hplain _ h, fun h => by simpa using hplain _ h⟩
  · rintro ⟨hempty, hslash, hbackslash⟩
    refine ⟨hempty, fun c hc => ?_⟩
    have hc_slash : c ≠ '/' := fun h => hslash (h ▸ hc)
    have hc_backslash : c ≠ '\\' := fun h => hbackslash (h ▸ hc)
    simp [hc_slash, hc_backslash]

theorem Apps.validate_eq_ok_iff (a : Apps) :
    a.validate = .ok () ↔
      isPlainName a.templateFile = true ∧ isPlainName a.scriptFile = true ∧
        isPlainName a.styleFile = true := by
  unfold validate
  simp only [bind_eq_ok_iff, check_eq_ok_iff]

/-- The name in lower case. -/
def folded (name : String) : String := String.ofList (Text.lowercase name.toList)

/-- Checks the logging section. -/
def Logging.validate (l : Logging) : Except ConfigError Unit := do
  check (logLevels.contains (folded l.level)) "logging.level" (.unknownLevel l.level)
  check (logFormats.contains (folded l.format)) "logging.format" (.unknownFormat l.format)

/-- Checks all settings. -/
def Settings.validate (s : Settings) : Except ConfigError Unit := do
  s.server.validate
  s.apps.validate
  check (s.client.maxAttempts != 0) "client.max_attempts" .noAttempts
  s.logging.validate

end AppletHost.Config
