/-
# Frames: the functions that calls run

A node of a profile says which function it stands for, in one of two ways: in a `callFrame`
object, with positions counted from zero, or directly among its own fields, with positions
counted from one.  `Frame.ofFields` reads either and counts positions from zero; what is not
given is `-1`.

A frame is native (`Frame.isNative`) when its address begins with the word `native`.
-/
import SampledProfile.Value.Arithmetic
import SampledProfile.Value.Text

namespace SampledProfile

/-- The function that a call runs. -/
structure Frame (α : Type) where
  functionName : Value α
  scriptId : String
  url : Value α
  line : Value α
  column : Value α

namespace Frame

variable {α : Type} [Scalar α]

/-- A position counted from one, made one counted from zero. -/
def fromOne (position : Value α) : Except Fault (Value α) := (position.sub (.int 1)).map .num

/-- The frame that a node reports. -/
def ofFields (node : Fields α) : Except Fault (Frame α) :=
  let callFrame := node.get "callFrame"
  if callFrame.truthy then do
    let frame ← callFrame.fields
    return {
      functionName := frame.getD "functionName" (.str "")
      scriptId := (frame.getD "scriptId" (.str "")).text
      url := frame.getD "url" (.str "")
      line := frame.getD "lineNumber" (.int (-1))
      column := frame.getD "columnNumber" (.int (-1)) }
  else do
    let line ← fromOne (node.getD "lineNumber" (.int 0))
    let column ← fromOne (node.getD "columnNumber" (.int 0))
    return {
      functionName := node.getD "functionName" (.str "")
      scriptId := (node.getD "scriptId" (.str "")).text
      url := node.getD "url" (.str "")
      line := line
      column := column }

/-- How the address of a native function begins. -/
def nativeMark : String := "native "

/-- The address a node reports, in its `callFrame` or directly. -/
def addressOf (node : Fields α) : Except Fault (Value α) :=
  let callFrame := node.get "callFrame"
  if callFrame.truthy then callFrame.fields.map (·.get "url") else .ok (node.get "url")

/-- Does the node stand for a native function? -/
def isNative (node : Fields α) : Except Fault Bool := do
  let address ← addressOf node
  if address.truthy then
    match address with
    | .str text => return nativeMark.toList.isPrefixOf text.toList
    | _ => throw .noSuchMember
  else return false

/-- The name to show for a function, which may have none. -/
def shownName (functionName : Value α) : String :=
  (functionName.orElse (.str "(anonymous)")).text

end Frame
end SampledProfile
