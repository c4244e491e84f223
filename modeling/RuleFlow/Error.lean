import RuleFlow.Graph.Shape
import RuleFlow.Http
import RuleFlow.Lifecycle
import RuleFlow.Mqtt
import RuleFlow.Script.Fault
import RuleFlow.Settings

/-!
# What can go wrong

`RuleError` names the causes; each is of one `ErrorKind`, and `RuleError.message` words it as the text of
its kind followed by the details. `stated` is an error that a collaborator reports in its own words.
-/

namespace RuleFlow

/-- The kinds of errors that callers tell apart. -/
inductive ErrorKind where
  | unauthorized
  | notFound
  | alreadyExists
  | failedPrecondition
  | malformed
  | invalidGraph
  | handlerNotFound
  | nodeConfig
  | connection
  | script
  | nodeExecution
  | nodeFailed
  | repository
  | cache
  | transport
  | settings
  | json
  deriving DecidableEq

/-- The kinds under their names. -/
def ErrorKind.names : List (String × ErrorKind) :=
  [("Unauthorized", .unauthorized), ("NotFound", .notFound), ("AlreadyExists", .alreadyExists),
    ("FailedPrecondition", .failedPrecondition), ("Malformed", .malformed),
    ("InvalidGraph", .invalidGraph), ("HandlerNotFound", .handlerNotFound),
    ("ConfigError", .nodeConfig), ("ConnectionError", .connection), ("ScriptError", .script),
    ("NodeExecutionError", .nodeExecution), ("NodeFailed", .nodeFailed),
    ("Repository", .repository), ("Cache", .cache), ("Transport", .transport),
    ("Config", .settings), ("Json", .json)]

/-- The name of a kind. -/
def ErrorKind.name (kind : ErrorKind) : String :=
  ((names.find? (·.2 = kind)).map (·.1)).getD ""

/-- What every message of a kind starts with. -/
def ErrorKind.opening : ErrorKind → String
  | .unauthorized => "身份验证失败"
  | .notFound => "规则链未找到: "
  | .alreadyExists => "规则链已存在: "
  | .failedPrecondition => "前置条件不满足: "
  | .malformed => "无效实体: "
  | .invalidGraph => "规则链图无效: "
  | .handlerNotFound => "找不到节点处理器: "
  | .nodeConfig => "配置错误: "
  | .connection => "连接失败: "
  | .script => "脚本执行失败: "
  | .nodeExecution => "节点执行失败: "
  | .nodeFailed => ""
  | .repository => "存储错误: "
  | .cache => "缓存错误: "
  | .transport => "传输错误: "
  | .settings => "引擎配置错误: "
  | .json => ""

/-- Which text was expected to be JSON. -/
inductive JsonUse where
  | envelope
  | messageData
  | adaptorData
  | graph
  deriving DecidableEq

/-- The wording of a text that is not JSON. -/
def JsonUse.message : JsonUse → String
  | .envelope => "消息信封解析失败: "
  | .messageData => "消息负载不是合法的JSON: "
  | .adaptorData => "适配器数据不是合法的JSON: "
  | .graph => "规则链负载不是合法的JSON: "

/-- A setting of a node that must not be empty. -/
inductive NodeSetting where
  | script
  | url
  | topic
  | relation
  deriving DecidableEq

/-- Why a graph definition cannot be compiled. -/
inductive GraphDefect where
  | shape (pointer : String) (violation : Violation)
  | noNodes
  | duplicateNode (id : String)
  | creation (id typeName reason : String)
  | danglingSource (source label target : String)
  | danglingTarget (source label target : String)
  | unknownEntry (id : String)
  | cycle (path : List String)
  | missingNode (id : String)
  deriving DecidableEq

/-- The wording of a defect. -/
def GraphDefect.message : GraphDefect → String
  | .shape pointer violation => s!"负载结构错误 ({pointer}): {violation.message}"
  | .noNodes => "规则链没有定义任何节点"
  | .duplicateNode id => s!"节点 id 重复: {id}"
  | .creation id typeName reason => s!"节点 {id}[{typeName}] 创建失败: {reason}"
  | .danglingSource source label target => s!"连接 {source} -[{label}]-> {target} 的起始节点不存在"
  | .danglingTarget source label target => s!"连接 {source} -[{label}]-> {target} 的目标节点不存在"
  | .unknownEntry id => s!"入口节点 {id} 不存在"
  | .cycle path => "节点循环依赖: " ++ " -> ".intercalate path
  | .missingNode id => s!"节点 {id} 不存在"

/-- Why a node that was built could not do its work. -/
inductive NodeFault where
  | panic (text : String)
  | noEntity
  | notAttributes (data : Json.Value)
  | noPublisher
  | noTarget
  | request (fault : Http.Fault)
  | status (code : Nat)
  deriving DecidableEq

/-- The wording of a fault of a node. -/
def NodeFault.message : NodeFault → String
  | .panic text => s!"panic: {text}"
  | .noEntity => "无法确定属性所属实体"
  | .notAttributes data => s!"属性数据必须是对象, 实际为: {data.render}"
  | .noPublisher => "消息缺少发布者"
  | .noTarget => "目标实体 id 为空"
  | .request fault => s!"HTTP请求失败: {fault.message}"
  | .status code => s!"HTTP请求返回错误状态码: {Http.statusText code}"

/-- Why the configuration of a node is refused. -/
inductive NodeConfigFault where
  | unreadable (id : String) (cause : Json.Cause)
  | empty (id : String) (setting : NodeSetting)
  | method (name : String)
  | broker (address : String) (fault : Mqtt.AddressFault)
  deriving DecidableEq

/-- The wording of a refused configuration. -/
def NodeConfigFault.message : NodeConfigFault → String
  | .unreadable id cause => s!"节点 {id} 配置解析失败: {cause.message}"
  | .empty id .script => s!"节点 {id} 的 script 不能为空"
  | .empty id .url => s!"节点 {id} 的 url 不能为空"
  | .empty id .topic => s!"节点 {id} 的 topic 不能为空"
  | .empty id .relation => s!"节点 {id} 需要 relation_type 和 entity_id"
  | .method name => s!"无效的 HTTP 方法: {name}"
  | .broker address (.url fault) => s!"无效的 broker 地址 {address}: {fault.message}"
  | .broker _ (.scheme name) => s!"不支持的 broker 协议: {name}"
  | .broker address .noHost => s!"broker 地址缺少主机: {address}"

/-- Why a key-value server cannot serve as a cache. -/
inductive CacheFault where
  | address
  | noHost
  | database
  | encryption
  | noPath
  | username
  | password
  | protocol (version : String)
  | refused
  | noSocket
  | serverDown
  deriving DecidableEq

/-- The wording of a fault of a cache server. -/
def CacheFault.message : CacheFault → String
  | .address => "Redis URL did not parse- InvalidClientConfig"
  | .noHost => "Missing hostname- InvalidClientConfig"
  | .database => "Invalid database number- InvalidClientConfig"
  | .encryption => "can't connect with TLS, the feature is not enabled- InvalidClientConfig"
  | .noPath => "Missing path- InvalidClientConfig"
  | .username => "Username is not valid UTF-8 string- InvalidClientConfig"
  | .password => "Password is not valid UTF-8 string- InvalidClientConfig"
  | .protocol version => s!"Invalid protocol version - InvalidClientConfig: {version}"
  | .refused => "Connection refused (os error 111)"
  | .noSocket => "No such file or directory (os error 2)"
  | .serverDown => "An error was signalled by the server - ResponseError: stub is down"

/-- Why the settings of the engine cannot be used. -/
inductive SettingsFault where
  | unreadable
  | invalid (fault : Settings.Fault)
  | logFilter (level reason : String)
  | logInstalled
  deriving DecidableEq

/-- The wording of unusable settings. -/
def SettingsFault.message : SettingsFault → String
  | .unreadable => "加载配置失败"
  | .invalid fault => fault.message
  | .logFilter level reason => s!"无效的日志级别 {level}: {reason}"
  | .logInstalled => "日志系统初始化失败: a global default trace dispatcher has already been set"

/-- The causes of errors. -/
inductive RuleError where
  | stated (kind : ErrorKind) (text : String)
  | unauthorized
  | noChain (id : String)
  | notRunning (id : String)
  | noKey (key : String)
  | chainExists (id : String)
  | notPermitted (id : String) (status : Status) (operation : Operation)
  | unknownStatus (text : String)
  | noId
  | noOwner
  | noChannel
  | notJson (use : JsonUse) (e : Json.Error)
  | graph (defect : GraphDefect)
  | noHandler (typeName : String)
  | nodeConfig (fault : NodeConfigFault)
  | mqtt (fault : Mqtt.Fault)
  | script (fault : Script.Fault)
  | execution (fault : NodeFault)
  | nodeFailed (nodeId typeName reason : String)
  | repositoryDown
  | cacheDown
  | cacheServer (fault : CacheFault)
  | noTopic
  | noBroker
  | settings (fault : SettingsFault)
  | json (e : Json.Error)
  deriving DecidableEq

namespace RuleError

/-- The kind of an error. -/
def kind : RuleError → ErrorKind
  | stated kind _ => kind
  | unauthorized => .unauthorized
  | noChain _ | notRunning _ | noKey _ => .notFound
  | chainExists _ => .alreadyExists
  | notPermitted .. => .failedPrecondition
  | unknownStatus _ | noId | noOwner | noChannel | notJson .. => .malformed
  | graph _ => .invalidGraph
  | noHandler _ => .handlerNotFound
  | nodeConfig _ => .nodeConfig
  | mqtt _ => .connection
  | script _ => .script
  | execution _ => .nodeExecution
  | nodeFailed .. => .nodeFailed
  | repositoryDown => .repository
  | cacheDown | cacheServer _ => .cache
  | noTopic | noBroker => .transport
  | settings _ => .settings
  | json _ => .json

/-- The details of an error. -/
def details : RuleError → String
  | stated .unauthorized _ => ""
  | stated _ text => text
  | unauthorized => ""
  | noChain id => id
  | notRunning id => s!"规则链 {id} 未在运行"
  | noKey key => key
  | chainExists id => id
  | notPermitted id status operation => s!"规则链 {id} 处于 {status.name} 状态, 不允许 {operation.name}"
  | unknownStatus text => s!"未知的规则链状态: {text}"
  | noId => "规则链缺少 id"
  | noOwner => "规则链缺少 owner"
  | noChannel => "消息信封缺少 channel"
  | notJson use e => use.message ++ e.message
  | graph defect => defect.message
  | noHandler typeName => typeName
  | nodeConfig fault => fault.message
  | mqtt fault => fault.message
  | script fault => fault.message
  | execution fault => fault.message
  | nodeFailed nodeId typeName reason => s!"节点 {nodeId}[{typeName}] 执行失败: {reason}"
  | repositoryDown => "database unavailable"
  | cacheDown => "cache offline"
  | cacheServer fault => fault.message
  | noTopic => "订阅主题不能为空"
  | noBroker => "no broker"
  | settings fault => fault.message
  | json e => e.message

/-- The wording of an error. -/
def message (e : RuleError) : String := e.kind.opening ++ e.details

/-- Whether something was looked for and not found. -/
def isNotFound (e : RuleError) : Bool := e.kind = .notFound

/-- Whether the status table refused an operation. -/
def isFailedPrecondition (e : RuleError) : Bool := e.kind = .failedPrecondition

end RuleError

/-- The outcome of an operation that may fail. -/
abbrev Result (α : Type) := Except RuleError α

end RuleFlow
