/-
The conventions of a template and of the method it is expanded into.
-/

namespace CilTemplate

structure ExpansionOptions where
  argumentOffset : Int
  templateIsStatic : Bool
  destinationIsStatic : Bool
  trimTrailingReturn : Bool
deriving DecidableEq

namespace ExpansionOptions

/-- Arguments are counted from the receiver where there is one. -/
def offsetBetween (templateIsStatic destinationIsStatic : Bool) : Int :=
  (if destinationIsStatic then 0 else 1) - (if templateIsStatic then 0 else 1)

def between (templateIsStatic destinationIsStatic : Bool) : ExpansionOptions :=
  ⟨offsetBetween templateIsStatic destinationIsStatic, templateIsStatic,
    destinationIsStatic, true⟩

def standard : ExpansionOptions := between false false

/-- A template with a receiver reads its captures through it. -/
def receiverCaptures (options : ExpansionOptions) : Bool :=
  !options.templateIsStatic

end ExpansionOptions
end CilTemplate
