/-
Conformance — messages on the wire.

The records of the protocol (version 2.0 of JSON-RPC) that a client and a tool
server exchange, each with its document and its decoder.  A document lists the
fields in the order of the record; a field that may be left out is left out
when it is empty, any other empty field is `null`.
-/
import Conformance.Wire.Shape

namespace Conformance.Wire

/-- The version every message names. -/
def rpcVersion : String := "2.0"

/-- The one protocol version that a client offers. -/
def protocolVersion : String := "2024-11-05"

/-! ## Methods -/

/-- Opens a session. -/
def openMethod : String := "initialize"

/-- Tells the server that the session is open. -/
def openedMethod : String := "notifications/initialized"

/-- Lists the tools. -/
def listMethod : String := "tools/list"

/-- Calls a tool. -/
def callMethod : String := "tools/call"

/-! ## Requests and notifications -/

structure Request where
  jsonrpc : String := rpcVersion
  id : Nat
  method : String
  params : Option Json

def Request.toJson (r : Request) : Json :=
  .obj ([("jsonrpc", .str r.jsonrpc), ("id", .nat r.id), ("method", .str r.method)]
    ++ Json.member? "params" r.params)

def Request.decode : Decoder Request :=
  record "McpRequest"
    (fun ms => do
      let id ← member ms "id" word
      let jsonrpc ← member ms "jsonrpc" string
      let method ← member ms "method" string
      let params ← member ms "params" (nullable value)
      let jsonrpc ← required "jsonrpc" jsonrpc
      let id ← required "id" id
      let method ← required "method" method
      return { jsonrpc, id, method, params := params.join })
    (fun xs => do
      let jsonrpc ← requiredItem "McpRequest" 4 xs 0 string
      let id ← requiredItem "McpRequest" 4 xs 1 word
      let method ← requiredItem "McpRequest" 4 xs 2 string
      let params ← requiredItem "McpRequest" 4 xs 3 (nullable value)
      noMoreThan 4 xs
      return { jsonrpc, id, method, params })

/-- A message without an id; it gets no answer. -/
structure Notification where
  jsonrpc : String := rpcVersion
  method : String
  params : Option Json := none

def Notification.toJson (n : Notification) : Json :=
  .obj ([("jsonrpc", .str n.jsonrpc), ("method", .str n.method)] ++ Json.member? "params" n.params)

def Notification.decode : Decoder Notification :=
  record "McpNotification"
    (fun ms => do
      let jsonrpc ← member ms "jsonrpc" string
      let method ← member ms "method" string
      let params ← member ms "params" (nullable value)
      let jsonrpc ← required "jsonrpc" jsonrpc
      let method ← required "method" method
      return { jsonrpc, method, params := params.join })
    (fun xs => do
      let jsonrpc ← requiredItem "McpNotification" 3 xs 0 string
      let method ← requiredItem "McpNotification" 3 xs 1 string
      let params ← requiredItem "McpNotification" 3 xs 2 (nullable value)
      noMoreThan 3 xs
      return { jsonrpc, method, params })

/-- The notification that ends the handshake. -/
def Notification.opened : Notification := { method := openedMethod }

/-! ## Responses -/

/-- The error object of a response. -/
structure RpcError where
  code : Int
  message : String := ""
  data : Option Json := none

namespace RpcError

def toJson (e : RpcError) : Json :=
  .obj ([("code", .int e.code), ("message", .str e.message)] ++ Json.member? "data" e.data)

def decode : Decoder RpcError :=
  record "McpError"
    (fun ms => do
      let code ← member ms "code" signedWord
      let data ← member ms "data" (nullable value)
      let message ← member ms "message" string
      let code ← required "code" code
      return { code, message := message.getD "", data := data.join })
    (fun xs => do
      let code ← requiredItem "McpError" 3 xs 0 signedWord
      let message ← item xs 1 string
      let data ← item xs 2 (nullable value)
      noMoreThan 3 xs
      return { code, message := message.getD "", data := data.join })

/-- The text of an error object. -/
def display (e : RpcError) : String := "[Error " ++ toString e.code ++ "] " ++ e.message

/-- The line was no JSON. -/
def parseError (message : String) : RpcError := { code := -32700, message }

def methodNotFound (method : String) : RpcError :=
  { code := -32601, message := "Method not found: " ++ method }

def invalidParams (message : String) : RpcError := { code := -32602, message }

def internalError (message : String) : RpcError := { code := -32603, message }

end RpcError

/-- An answer.  A `result` of `null` is a result. -/
structure Response where
  jsonrpc : String := rpcVersion
  id : Nat
  result : Option Json := none
  error : Option RpcError := none

namespace Response

def toJson (r : Response) : Json :=
  .obj ([("jsonrpc", .str r.jsonrpc), ("id", .nat r.id)] ++ Json.member? "result" r.result
    ++ Json.member? "error" (r.error.map RpcError.toJson))

def decode : Decoder Response :=
  record "McpResponse"
    (fun ms => do
      let error ← member ms "error" (nullable RpcError.decode)
      let id ← member ms "id" word
      let jsonrpc ← member ms "jsonrpc" string
      let result ← member ms "result" value
      let id ← required "id" id
      return { jsonrpc := jsonrpc.getD rpcVersion, id, result, error := error.join })
    (fun xs => do
      let jsonrpc ← item xs 0 string
      let id ← requiredItem "McpResponse" 4 xs 1 word
      let result ← item xs 2 value
      let error ← item xs 3 (nullable RpcError.decode)
      noMoreThan 4 xs
      return { jsonrpc := jsonrpc.getD rpcVersion, id, result, error := error.join })

def ok (id : Nat) (result : Json) : Response := { id, result := some result }

def err (id : Nat) (error : RpcError) : Response := { id, error := some error }

end Response

/-! ## The handshake -/

/-- What a client can do; each capability is any document. -/
structure Capabilities where
  sampling : Option Json := none
  experimental : Option Json := none

def Capabilities.toJson (c : Capabilities) : Json :=
  .obj (Json.member? "sampling" c.sampling ++ Json.member? "experimental" c.experimental)

def Capabilities.decode : Decoder Capabilities :=
  record "ClientCapabilities"
    (fun ms => do
      let experimental ← member ms "experimental" (nullable value)
      let sampling ← member ms "sampling" (nullable value)
      return { sampling := sampling.join, experimental := experimental.join })
    (fun xs => do
      let sampling ← requiredItem "ClientCapabilities" 2 xs 0 (nullable value)
      let experimental ← requiredItem "ClientCapabilities" 2 xs 1 (nullable value)
      noMoreThan 2 xs
      return { sampling, experimental })

/-- Who the client is. -/
structure ClientInfo where
  name : String := "mcp-test-client"
  version : String := "1.0.0"
deriving DecidableEq

def ClientInfo.toJson (c : ClientInfo) : Json :=
  .obj [("name", .str c.name), ("version", .str c.version)]

def ClientInfo.decode : Decoder ClientInfo :=
  record "ClientInfo"
    (fun ms => do
      let name ← member ms "name" string
      let version ← member ms "version" string
      let name ← required "name" name
      let version ← required "version" version
      return { name, version })
    (fun xs => do
      let name ← requiredItem "ClientInfo" 2 xs 0 string
      let version ← requiredItem "ClientInfo" 2 xs 1 string
      noMoreThan 2 xs
      return { name, version })

/-- The parameters of the request that opens a session. -/
structure OpenParams where
  protocolVersion : String
  capabilities : Capabilities
  clientInfo : ClientInfo

/-- The parameters for the one version offered, without capabilities. -/
def OpenParams.of (c : ClientInfo) : OpenParams :=
  { protocolVersion := Wire.protocolVersion, capabilities := {}, clientInfo := c }

def OpenParams.toJson (p : OpenParams) : Json :=
  .obj [("protocolVersion", .str p.protocolVersion), ("capabilities", p.capabilities.toJson),
    ("clientInfo", p.clientInfo.toJson)]

def OpenParams.decode : Decoder OpenParams :=
  record "InitializeParams"
    (fun ms => do
      let capabilities ← member ms "capabilities" Capabilities.decode
      let clientInfo ← member ms "clientInfo" ClientInfo.decode
      let protocolVersion ← member ms "protocolVersion" string
      let protocolVersion ← required "protocolVersion" protocolVersion
      let capabilities ← required "capabilities" capabilities
      let clientInfo ← required "clientInfo" clientInfo
      return { protocolVersion, capabilities, clientInfo })
    (fun xs => do
      let protocolVersion ← requiredItem "InitializeParams" 3 xs 0 string
      let capabilities ← requiredItem "InitializeParams" 3 xs 1 Capabilities.decode
      let clientInfo ← requiredItem "InitializeParams" 3 xs 2 ClientInfo.decode
      noMoreThan 3 xs
      return { protocolVersion, capabilities, clientInfo })

/-- Who the server is. -/
structure ServerInfo where
  name : String := ""
  version : String := ""
deriving DecidableEq

def ServerInfo.toJson (s : ServerInfo) : Json :=
  .obj [("name", .str s.name), ("version", .str s.version)]

def ServerInfo.decode : Decoder ServerInfo :=
  record "ServerInfo"
    (fun ms => do
      let name ← member ms "name" string
      let version ← member ms "version" string
      return { name := name.getD "", version := version.getD "" })
    (fun xs => do
      let name ← item xs 0 string
      let version ← item xs 1 string
      noMoreThan 2 xs
      return { name := name.getD "", version := version.getD "" })

/-- What a server answers to the request that opens a session; all of it may be
missing. -/
structure OpenResult where
  protocolVersion : Option String := none
  capabilities : Json := .null
  serverInfo : Option ServerInfo := none

def OpenResult.toJson (r : OpenResult) : Json :=
  .obj [("protocolVersion", Json.ofOption .str r.protocolVersion),
    ("capabilities", r.capabilities),
    ("serverInfo", Json.ofOption ServerInfo.toJson r.serverInfo)]

def OpenResult.decode : Decoder OpenResult :=
  record "InitializeResult"
    (fun ms => do
      let capabilities ← member ms "capabilities" value
      let protocolVersion ← member ms "protocolVersion" (nullable string)
      let serverInfo ← member ms "serverInfo" (nullable ServerInfo.decode)
      return { protocolVersion := protocolVersion.join, capabilities := capabilities.getD .null,
               serverInfo := serverInfo.join })
    (fun xs => do
      let protocolVersion ← item xs 0 (nullable string)
      let capabilities ← item xs 1 value
      let serverInfo ← item xs 2 (nullable ServerInfo.decode)
      noMoreThan 3 xs
      return { protocolVersion := protocolVersion.join, capabilities := capabilities.getD .null,
               serverInfo := serverInfo.join })

/-! ## Tools -/

/-- A tool that a server offers. -/
structure Tool where
  name : String
  description : String := ""
  inputSchema : Json := .null

def Tool.toJson (t : Tool) : Json :=
  .obj [("name", .str t.name), ("description", .str t.description), ("inputSchema", t.inputSchema)]

def Tool.decode : Decoder Tool :=
  record "Tool"
    (fun ms => do
      let description ← member ms "description" string
      let inputSchema ← member ms "inputSchema" value
      let name ← member ms "name" string
      let name ← required "name" name
      return { name, description := description.getD "", inputSchema := inputSchema.getD .null })
    (fun xs => do
      let name ← requiredItem "Tool" 3 xs 0 string
      let description ← item xs 1 string
      let inputSchema ← item xs 2 value
      noMoreThan 3 xs
      return { name, description := description.getD "", inputSchema := inputSchema.getD .null })

/-- The document of a list of tools. -/
def toolsJson (ts : List Tool) : Json := .arr (ts.map Tool.toJson)

/-- A call of a tool. -/
structure ToolCall where
  name : String
  arguments : Json

def ToolCall.toJson (c : ToolCall) : Json :=
  .obj [("name", .str c.name), ("arguments", c.arguments)]

def ToolCall.decode : Decoder ToolCall :=
  record "ToolCallParams"
    (fun ms => do
      let arguments ← member ms "arguments" value
      let name ← member ms "name" string
      let name ← required "name" name
      let arguments ← required "arguments" arguments
      return { name, arguments })
    (fun xs => do
      let name ← requiredItem "ToolCallParams" 2 xs 0 string
      let arguments ← requiredItem "ToolCallParams" 2 xs 1 value
      noMoreThan 2 xs
      return { name, arguments })

/-- One entry of the content that a tool returns. -/
structure Content where
  kind : Option String := none
  text : Option String := none
deriving DecidableEq

def Content.toJson (c : Content) : Json :=
  .obj (("type", Json.ofOption .str c.kind) :: Json.member? "text" (c.text.map .str))

def Content.decode : Decoder Content :=
  record "ToolContent"
    (fun ms => do
      let text ← member ms "text" (nullable string)
      let kind ← member ms "type" (nullable string)
      return { kind := kind.join, text := text.join })
    (fun xs => do
      let kind ← item xs 0 (nullable string)
      let text ← item xs 1 (nullable string)
      noMoreThan 2 xs
      return { kind := kind.join, text := text.join })

end Conformance.Wire
