/-
Conformance — reading a response.

A response is well-shaped if it carries a result or an error, and not both.
The views of its result never fail: what is missing or of another kind reads
as empty.  The content is read as a whole: one entry that does not decode
empties all of it.
-/
import Conformance.Wire.Message

namespace Conformance.Wire.Response

/-- How a response can be badly shaped. -/
inductive Misshape where
  | both
  | neither
deriving DecidableEq, Repr

def Misshape.text : Misshape → String
  | both => "response carries both result and error"
  | neither => "response carries neither result nor error"

/-- What is wrong with the shape, if anything. -/
def misshape (r : Response) : Option Misshape :=
  match r.result, r.error with
  | some _, none => none
  | none, some _ => none
  | some _, some _ => some .both
  | none, none => some .neither

def isSuccess (r : Response) : Bool := r.result.isSome && r.error.isNone

/-- The result, or the error; an error wins. -/
def outcome (r : Response) : Except RpcError Json :=
  match r.result, r.error with
  | some v, none => .ok v
  | _, some e => .error e
  | none, none =>
      .error (.internalError "Invalid response: neither result nor error present")

/-- A member of the result. -/
def resultMember (r : Response) (key : String) : Option Json :=
  r.result.bind (·.get? key)

/-- The entries of `result.content`. -/
def content (r : Response) : List Content :=
  match r.resultMember "content" with
  | none => []
  | some j =>
      match sequence Content.decode j with
      | .ok cs => cs
      | .error _ => []

/-- Whether `result.content` is a list. -/
def hasContent (r : Response) : Bool :=
  match r.resultMember "content" with
  | some j => j.isArray
  | none => false

/-- Whether the server flagged a failure of the tool. -/
def isToolError (r : Response) : Bool :=
  ((r.resultMember "isError").bind Json.asBool?).getD false

/-- The texts of the content, one after the other on lines of their own. -/
def text (r : Response) : String :=
  "\n".intercalate (r.content.filterMap Content.text)

end Conformance.Wire.Response
