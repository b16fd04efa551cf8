import JarPruning.Url.Reader
import JarPruning.Url.Request

/-! The address that traces are sent to. -/
namespace JarPruning.Endpoint

/-- Why traces cannot be sent to an address. -/
inductive Fault where
  | malformed (address : String) (fault : Url.Fault)
  | unfit (place : String) (fault : Url.Request.Fault)
  deriving DecidableEq, Repr

def Fault.message : Fault → String
  | .malformed address fault => s!"invalid OTLP endpoint {address}: {fault.text}"
  | .unfit place fault => s!"build OTLP span exporter: invalid URI {place}. Reason {fault.text}"

def withoutEnd? (ending path : List Char) : Option (List Char) :=
  if ending.isSuffixOf path then some (path.take (path.length - ending.length)) else none

def traces : List Char := "/v1/traces".toList

/-- The path for traces: that for other signals is replaced, and any other is where it begins. -/
def tracesPath (path : List Char) : List Char :=
  let path := (path.reverse.dropWhile (· = '/')).reverse
  let others := ["/v1/logs", "/v1/metrics"].map (·.toList)
  match others.findSome? (withoutEnd? · path) with
  | some base => base ++ traces
  | none => if traces.isSuffixOf path then path else path ++ traces

/-- The place for traces at an address. A path that is no way cannot begin with a slash. -/
def tracesPlace (u : Url) : Url :=
  let path := tracesPath u.path
  { u with path := if u.isWay then path else match path with
    | '/' :: rest => "%2F".toList ++ rest
    | _ => path }

def check (address : String) : Except Fault Unit := do
  let u ← (Url.read address).mapError (Fault.malformed address)
  let place := (tracesPlace u).text
  (Url.Request.check place).mapError (Fault.unfit place)

end JarPruning.Endpoint
