import Startup.Config.Logging
import Startup.Journal.Event

/-!
The journal as lines: what a reader of the log sees. Uses of an observed registry and the notes of
callbacks have lines of their own; everything else is a message with a level, or the beginning or
end of a span, and is shown only if the level is low enough.

Comparisons that follow each other directly are one line.
-/

namespace Startup

inductive Line (H : Host) where
  | query (c : Capability) (all eager : Bool)
  | resolve (n : String)
  | install (extension : String)
  | clear
  | compare
  | message (l : LogLevel) (text : String)
  | enter (span extension : String)
  | exit (span extension : String)
  | note (x : H.Note)

/-! ## Texts -/

def TierClass.label : TierClass → String
  | .priority => "优先级"
  | .ordered => "有序"
  | .unordered => "无序"

def MutationPhase.span : MutationPhase → String
  | .definition => "extension.definition-mutate"
  | .factory => "extension.factory-mutate"

def ContainerEvent.text : ContainerEvent → String
  | .closed => "Closed"
  | .refreshed count => "Refreshed \x7b component_count: " ++ toString count ++ " \x7d"

namespace Fact

variable {H : Host}

def message? : Fact H → Option (LogLevel × String)
  | .defined _ d overrides =>
    some (.debug, (if overrides then "覆盖组件定义: " else "注册组件定义: ") ++ d.name.text)
  | .removed _ n => some (.debug, "移除组件定义: " ++ n.text)
  | .instanceKept _ n i =>
    some (.info, "注册单例实例: " ++ n.text ++ " (" ++ i.typeName ++ ")")
  | .installed _ e position =>
    some (.debug, "安装拦截器: " ++ e.name ++ " (位置 " ++ toString position ++ ")")
  | .notInterceptor e => some (.warn, "忽略不具备拦截能力的扩展: " ++ e.name)
  | .cacheCleared _ entries => some (.debug, "清除合并定义缓存: " ++ toString entries ++ " 项")
  | .preinstantiating count => some (.info, "预实例化单例组件: " ++ toString count ++ " 个")
  | .pipelineStarted supplied =>
    some (.info, "开始执行工厂变更扩展, 调用方提供 " ++ toString supplied ++ " 个")
  | .degraded => some (.warn, "注册表不支持定义变更, 仅执行工厂回调")
  | .phaseChanged old new => some (.debug, "管道阶段: " ++ old.name ++ " -> " ++ new.name)
  | .notMutator e => some (.warn, "忽略不具备变更能力的扩展: " ++ e.name)
  | .roundFound round count =>
    some (.debug,
      "不动点第 " ++ toString round ++ " 轮发现 " ++ toString count ++ " 个新的定义变更扩展")
  | .tiersSplit priority ordered unordered =>
    some (.debug, "工厂变更扩展分层: 优先级 " ++ toString priority ++ ", 有序 " ++
      toString ordered ++ ", 无序 " ++ toString unordered)
  | .pipelineDone r =>
    some (.info, "工厂变更扩展执行完成: 定义回调 " ++ toString r.definitionCalls.length ++
      " 次, 工厂回调 " ++ toString r.factoryCalls.length ++ " 次")
  | .pipelineAborted during e =>
    some (.error, "工厂变更扩展在 " ++ during.name ++ " 阶段中止: " ++ e.message)
  | .registrationStarted found target =>
    some (.info, "开始注册生命周期拦截器: 发现 " ++ toString found ++ " 个, 预期总数 " ++
      toString target)
  | .tierInstalled t count =>
    some (.debug, "安装" ++ t.label ++ "层拦截器: " ++ toString count ++ " 个")
  | .relocating count =>
    some (.debug, "重新安装 " ++ toString count ++ " 个合并感知拦截器到链尾")
  | .registrationDone count =>
    some (.info, "生命周期拦截器注册完成: 共 " ++ toString count ++ " 个")
  | .bypassed _ n type count target =>
    some (.info, "组件 '" ++ n.text ++ "' (" ++ type ++ ") 在拦截器全部安装前被创建 (" ++
      toString count ++ "/" ++ toString target ++ "), 不会被所有拦截器处理")
  | .listenerAdded _ n _ => some (.debug, "注册容器事件监听器: " ++ n.text)
  | .listenerUnreachable n =>
    some (.warn, "组件 '" ++ n.text ++ "' 实现了事件监听器但不是单例, 无法接收容器事件")
  | .extensionAdded e => some (.debug, "添加扩展: " ++ e.name)
  | .configLoading path => some (.info, "加载启动配置文件: " ++ path)
  | .configReading path => some (.debug, "加载启动配置文件: " ++ path)
  | .bootstrapStarted => some (.info, "开始启动组件容器")
  | .preinstantiationSkipped => some (.debug, "跳过单例预实例化")
  | .bootstrapDone => some (.info, "组件容器启动完成")
  | .bootstrapFailed e => some (.error, "组件容器启动失败: " ++ e.message)
  | .closing => some (.info, "关闭组件容器")
  | .querying .. | .installing .. | .clearing _ | .comparing _ | .listenerKnown .. | .note _ => none

end Fact

/-! ## Lines -/

namespace Line

variable {H : Host} (threshold : Option LogLevel)

/-- A message, if it is shown; without a threshold none is. -/
def messageIf (l : LogLevel) (text : String) : List (Line H) :=
  if threshold.any (·.shows l) then [.message l text] else []

/-- The line of a use that only an observed registry has. -/
def useOf (v : View) (l : Line H) : List (Line H) := if v.observed then [l] else []

def ofFact (f : Fact H) : List (Line H) :=
  match f with
  | .querying v c all eager => useOf v (.query c all eager)
  | .installing v e => useOf v (.install e.name)
  | .clearing v => useOf v .clear
  | .comparing _ => [.compare]
  | .note x => [.note x]
  | f =>
    match f.message? with
    | some (l, text) => messageIf threshold l text
    | none => []

def spanned (p : MutationPhase) (e : Extension H) (l : List (Line H)) : List (Line H) :=
  if threshold.any (·.shows .info) then [.enter p.span e.name] ++ l ++ [.exit p.span e.name] else l

/-- The lines of an activity, around those of what happened inside. -/
def ofScope (s : Scope H) (inner : List (Line H)) : List (Line H) :=
  match s with
  | .resolution v n _ => useOf v (.resolve n.text) ++ inner
  | .creation _ n d _ _ _ =>
    messageIf threshold .debug ("创建组件: " ++ n.text ++ " (" ++ d.type.name ++ ")") ++ inner
  | .publication _ e listeners =>
    messageIf threshold .debug ("广播容器事件 " ++ e.text ++ " 给 " ++ toString listeners.length ++
      " 个监听器") ++ inner
  | .mutation .definition e _ =>
    spanned threshold .definition e
      (messageIf threshold .debug ("执行定义回调: " ++ e.name) ++ inner)
  | .mutation .factory e outcome =>
    spanned threshold .factory e <| inner ++
      match outcome with
      | .unsupported => messageIf threshold .warn ("忽略不具备工厂变更能力的扩展: " ++ e.name)
      | .done | .failed _ => messageIf threshold .debug ("执行工厂回调: " ++ e.name)
  | .call .. | .fetch .. | .pipeline .. | .registration .. | .preinstantiation ..
  | .bootstrap .. => inner

mutual

def ofEvent : Event H → List (Line H)
  | .fact f => ofFact threshold f
  | .scope s body => ofScope threshold s (ofEvents body)

def ofEvents : List (Event H) → List (Line H)
  | [] => []
  | e :: rest => ofEvent e ++ ofEvents rest

end

/-- One line for comparisons that follow each other directly. -/
def joinCompares : List (Line H) → List (Line H)
  | .compare :: .compare :: rest => joinCompares (.compare :: rest)
  | l :: rest => l :: joinCompares rest
  | [] => []

def ofJournal (j : Journal H) : List (Line H) := joinCompares (ofEvents threshold j)

end Line

end Startup
