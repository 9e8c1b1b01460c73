import SynitWaf.Config.Types

/-!
# Coraza directives

The text of the rules a tenant is protected by. The built-in rule set against prompt injection
embeds the inspected paths of the tenant as a regular expression.

* `quoteMeta`, `buildLLMProtectionRules`;
* **`tenantDirectives`**.
-/

namespace SynitWaf

open Go

/-- `requestBodyErrorRule`. -/
def requestBodyErrorRule : GoString :=
  str "SecRule REQBODY_ERROR \"!@eq 0\" \"id:440001,phase:2,deny,status:403,log," ++
    str "msg:'Request body parsing failed'\""

/-- `requestInspectionRules`. -/
def requestInspectionRules : GoString :=
  str "\nSecRule ARGUMENTS_LIMIT_REACHED \"@eq 1\" \"id:440002,phase:1,t:none,deny," ++
    str "status:403,log,msg:'Request argument limit reached'\"\n" ++
    str "SecRule ARGUMENTS_LIMIT_REACHED \"@eq 1\" \"id:440003,phase:2,t:none,deny," ++
    str "status:403,log,msg:'Request argument limit reached'\"\n" ++
    str "SecRule URI_PARSE_ERROR \"@eq 1\" \"id:440004,phase:1,t:none,deny,status:403," ++
    str "log,msg:'Request URI parsing failed'\"\n" ++
    str "SecRule MULTIPART_STRICT_ERROR \"!@eq 0\" \"id:440005,phase:2,t:none,deny," ++
    str "status:403,log,msg:'Multipart request body validation failed'\"\n"

/-- `llmRuleSetName`. -/
def llmRuleSetName : GoString := str "llm-protection"

/-- `llmProtectionDetectionRules`. -/
def llmProtectionDetectionRules : GoString :=
  str "\n# Instruction override and known jailbreak personas\n" ++
    str "SecRule ARGS|REQUEST_BODY \"@rx (?i)(?:(?:ignore|disregard|forget|override)\\s+(?:all\\s+|" ++
    str "any\\s+|the\\s+|your\\s+)?(?:previous|prior|above|earlier|preceding)\\s+(?:instructions?|" ++
    str "prompts?|rules|directions|context)|\\bdan\\s+mode\\b|\\bdo\\s+anything\\s+now\\b|" ++
    str "\\bjailbreak\\s+(?:mode|prompt)\\b|you\\s+are\\s+now\\s+(?:in\\s+)?(?:dan|" ++
    str "developer|jailbreak|unrestricted|god)\\s+mode)\" \\\n    \"id:440012,phase:2," ++
    str "deny,status:403,log,msg:'Potential classic prompt injection pattern matched'\"\n" ++
    str "\n# System prompt extraction attempts\n" ++
    str "SecRule ARGS|REQUEST_BODY \"@rx (?i)(?:(?:repeat|reveal|print|show|output|" ++
    str "leak)\\s+(?:me\\s+)?(?:your|the)\\s+(?:system\\s+|initial\\s+|hidden\\s+|" ++
    str "original\\s+)?(?:prompt|instructions)|what\\s+(?:is|are)\\s+your\\s+system\\s+(?:prompt|" ++
    str "instructions))\" \\\n    \"id:440013,phase:2,deny,status:403,log,msg:'Potential " ++
    str "system prompt extraction attempt matched'\"\n"

/-- `regexp.QuoteMeta`. -/
def quoteMeta (s : GoString) : GoString :=
  s.flatMap fun c => if c ∈ str "\\.+*?()|[]\x7b\x7d^$" then [0x5C, c] else [c]

/-- `buildLLMProtectionRules`. -/
def buildLLMProtectionRules (inspectPaths : List GoString) : GoString :=
  let alternatives := inspectPaths.map fun path => quoteMeta (trimSuffix path (str "/"))
  let scope :=
    if inspectPaths = [] then []
    else str "\nSecRule REQUEST_FILENAME \"!@rx ^(?:" ++ join alternatives (byte '|') ++
      str ")(?:/|$)\" \\\n    \"id:440011,phase:2,pass,nolog,t:none,t:normalizePath," ++
        str "skipAfter:SYNIT-LLM-END\"\n"
  str "\nSecRequestBodyAccess On\n" ++
      str "SecRule REQUEST_HEADERS:Content-Type \"(?i)application/json\" \\\n    \"id:440010," ++
      str "phase:1,pass,nolog,ctl:requestBodyProcessor=JSON\"\n" ++
    scope ++ llmProtectionDetectionRules ++ str "SecMarker \"SYNIT-LLM-END\"\n"

/-- The rules of one included set. -/
def ruleSet (cfg : AppConfig) (tenant : Tenant) (setName : GoString) : GoString :=
  if setName = llmRuleSetName ∧ cfg.builtinLLMRules = true then
    buildLLMProtectionRules tenant.security.llmProtection.inspectPaths
  else (cfg.wafRuleSets.lookup setName).getD []

/-- `tenantDirectives`. The engine directive comes last, so that no rule set overrides it. -/
def tenantDirectives (cfg : AppConfig) (tenant : Tenant) : GoString :=
  let policy := tenant.security
  let level := itoa policy.paranoiaLevel
  str "SecAction \"id:440000,phase:1,nolog,pass,t:none,setvar:tx.paranoia_level=" ++ level ++
    str ",setvar:tx.blocking_paranoia_level=" ++ level ++
    str ",setvar:tx.detection_paranoia_level=" ++ level ++ str "\"\n" ++
    policy.includeRuleSets.flatMap (fun setName => ruleSet cfg tenant setName ++ str "\n") ++
    (if policy.customRules ≠ [] then policy.customRules ++ str "\n" else []) ++
    requestBodyErrorRule ++ str "\n" ++ requestInspectionRules ++
    (if policy.auditMode then str "SecRuleEngine DetectionOnly\n" else str "SecRuleEngine On\n")

end SynitWaf
