/-!
What can go wrong, by layer. An error may carry the failure that caused it, so a failure is a
finite chain of causes that ends in a plain text.

* `DependencyError`: a registry cannot hand out a component;
* `ExtensionError`: a callback of an extension failed, or a component it needed;
* `ConfigError`: a start-up configuration cannot be read;
* `InfrastructureError`: a container cannot be started;
* `Failure`: any of these, or what a callback reports in its own words.

`message` gives the text of each, `causes` the failures under it, outermost first. A wrapper that
is *transparent* has the text and the causes of what it wraps.
-/

namespace Startup

/-- The callback of an extension in which a failure arose. -/
inductive MutationPhase where
  | definition
  | factory
  deriving DecidableEq, Repr, Inhabited

def MutationPhase.name : MutationPhase → String
  | definition => "definition-mutation"
  | factory => "factory-mutation"

mutual

/-- A failure in the widest sense: what a callback may report. -/
inductive Failure where
  /-- A text of the callback's own. -/
  | plain (text : String)
  /-- A request that makes no sense where it is made. -/
  | misuse (text : String)
  | dependency (e : DependencyError)
  | extension (e : ExtensionError)
  | config (e : ConfigError)
  | infrastructure (e : InfrastructureError)

inductive DependencyError where
  | notRegistered (name : String)
  | creationFailed (name : String) (source : Failure)
  | circular (chain : String)
  | capabilityMismatch (name expected actual : String)
  | interceptorFailed (name interceptor : String) (source : Failure)
  | registration (name reason : String)

inductive ExtensionError where
  | callback (extension : String) (phase : MutationPhase) (source : Failure)
  /-- Transparent. -/
  | dependency (e : DependencyError)

inductive ConfigError where
  | fileNotFound (path : String)
  | fileUnreadable (reason : String)
  | malformed (source : Failure)
  | invalid (reason : String)

inductive InfrastructureError where
  | config (e : ConfigError)
  /-- Transparent. -/
  | extension (e : ExtensionError)
  | dependency (e : DependencyError)
  | bootstrapFailed (reason : String)

end

instance : Inhabited Failure := ⟨.plain ""⟩

instance : Inhabited DependencyError := ⟨.notRegistered ""⟩

instance : Inhabited ExtensionError := ⟨.dependency default⟩

instance : Inhabited ConfigError := ⟨.fileNotFound ""⟩

instance : Inhabited InfrastructureError := ⟨.bootstrapFailed ""⟩

/-! ## Texts -/

mutual

def Failure.message : Failure → String
  | .plain text | .misuse text => text
  | .dependency e => e.message
  | .extension e => e.message
  | .config e => e.message
  | .infrastructure e => e.message

def DependencyError.message : DependencyError → String
  | .notRegistered name => "组件未注册: " ++ name
  | .creationFailed name source => "组件创建失败: " ++ name ++ ", 原因: " ++ source.message
  | .circular chain => "循环依赖检测到: " ++ chain
  | .capabilityMismatch name expected actual =>
      "组件能力不匹配: " ++ name ++ ", 期望 " ++ expected ++ ", 实际类型 " ++ actual
  | .interceptorFailed name interceptor source =>
      "拦截器处理失败: 组件 " ++ name ++ ", 拦截器 " ++ interceptor ++ ", 原因: " ++ source.message
  | .registration name reason => "组件注册失败: " ++ name ++ ", 原因: " ++ reason

def ExtensionError.message : ExtensionError → String
  | .callback extension phase source =>
      "扩展回调失败: " ++ extension ++ " [" ++ phase.name ++ "], 原因: " ++ source.message
  | .dependency e => e.message

def ConfigError.message : ConfigError → String
  | .fileNotFound path => "配置文件不存在: " ++ path
  | .fileUnreadable reason => "配置文件读取失败: " ++ reason
  | .malformed source => "配置解析失败: " ++ source.message
  | .invalid reason => "配置验证失败: " ++ reason

def InfrastructureError.message : InfrastructureError → String
  | .config e => "配置错误: " ++ e.message
  | .extension e => e.message
  | .dependency e => "依赖注入错误: " ++ e.message
  | .bootstrapFailed reason => "基础设施启动失败: " ++ reason

end

/-! ## Causes -/

mutual

/-- The failures under this one, outermost first. -/
def Failure.causes : Failure → List Failure
  | .plain _ | .misuse _ => []
  | .dependency e => e.causes
  | .extension e => e.causes
  | .config e => e.causes
  | .infrastructure e => e.causes

def DependencyError.causes : DependencyError → List Failure
  | .creationFailed _ source | .interceptorFailed _ _ source => source :: source.causes
  | .notRegistered _ | .circular _ | .capabilityMismatch .. | .registration .. => []

def ExtensionError.causes : ExtensionError → List Failure
  | .callback _ _ source => source :: source.causes
  | .dependency e => e.causes

def ConfigError.causes : ConfigError → List Failure
  | .fileUnreadable reason => [.plain reason]
  | .malformed source => source :: source.causes
  | .fileNotFound _ | .invalid _ => []

def InfrastructureError.causes : InfrastructureError → List Failure
  | .config e => .config e :: e.causes
  | .extension e => e.causes
  | .dependency e => .dependency e :: e.causes
  | .bootstrapFailed _ => []

end

/-- The extension whose callback failed. -/
def ExtensionError.extension? : ExtensionError → Option String
  | .callback extension _ _ => some extension
  | .dependency _ => none

end Startup
