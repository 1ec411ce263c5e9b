import CilTemplate.Code.Form

/-
The layout of emitted code.  The code is a sequence of pieces, and a label
marks a place between two pieces, so the address of everything follows from
the sizes of the pieces.  A branch that was emitted with a four-byte offset is
narrowed to one byte when it reaches its target that way.  All branches that
can be narrowed in one layout are narrowed together, and the code is laid out
anew until none is left.
-/

namespace CilTemplate

namespace Opcode

def narrowed? (opcode : Opcode) : Option Opcode :=
  if opcode = leave then some leaveS
  else
    (BranchCondition.ofOpcode? opcode).bind fun condition =>
      if condition.longOpcode = opcode then some condition.shortOpcode else none

end Opcode

inductive Piece
  | plain (bytes : List UInt8)
  | branch (opcode : Opcode) (target : Nat)
  | narrowBranch (opcode : Opcode) (target : Nat)
  | switch (targets : List Nat)
deriving DecidableEq

namespace Piece

def size : Piece → Nat
  | plain bytes => bytes.length
  | branch opcode _ => opcode.size + 4
  | narrowBranch opcode _ => opcode.size + 1
  | switch targets => Opcode.switch.size + 4 + 4 * targets.length

end Piece

/-- Pieces of code in order.  The mark of a label is the number of pieces in
front of it. -/
structure Layout where
  pieces : List Piece
  marks : Array (Option Nat)

namespace Layout

def labelText (label : Nat) : String :=
  "EmitLabel(" ++ toString label ++ ")"

/-- The address of each piece, and last the size of all. -/
def addresses (layout : Layout) : Array Nat :=
  layout.pieces.foldl (fun known piece => known.push (known.back?.getD 0 + piece.size)) #[0]

def labelAddress (layout : Layout) (addresses : Array Nat) (label : Nat) :
    Except Error Nat :=
  match layout.marks[label]?.join.bind fun mark => addresses[mark]? with
  | some address => .ok address
  | none => .error (.undefinedLabel (labelText label))

/-- Offsets are four-byte signed numbers. -/
def offset (target next : Nat) : Except Error Int :=
  let distance := (target : Int) - next
  if -0x80000000 ≤ distance ∧ distance < 0x80000000 then .ok distance
  else .error (.invalidBranch (.outOfRange distance))

def fitsByte (distance : Int) : Bool :=
  decide (-128 ≤ distance ∧ distance ≤ 127)

/-- The narrow form of a branch at an address, if it reaches its target in the
given layout. -/
def narrowPiece? (layout : Layout) (addresses : Array Nat) (address : Nat) :
    Piece → Except Error (Option Piece)
  | .branch opcode target =>
      match opcode.narrowed? with
      | none => .ok none
      | some short => do
          let targetAddress ← layout.labelAddress addresses target
          let distance ← offset targetAddress (address + 2)
          pure (if fitsByte distance then some (.narrowBranch short target) else none)
  | _ => .ok none

def narrowings (layout : Layout) : Except Error (List (Option Piece)) :=
  let addresses := layout.addresses
  (addresses.toList.zip layout.pieces).mapM fun (address, piece) =>
    layout.narrowPiece? addresses address piece

/-- Rounds of narrowing, until a round finds nothing. -/
def narrow (layout : Layout) : Nat → Except Error Layout
  | 0 => .ok layout
  | rounds + 1 => do
      let narrowings ← layout.narrowings
      if narrowings.all Option.isNone then pure layout
      else
        let pieces := (layout.pieces.zip narrowings).map fun (piece, narrowing) =>
          narrowing.getD piece
        narrow { layout with pieces := pieces } rounds

/-- A round that is not the last narrows a piece, and no piece is narrowed
twice. -/
def narrowed (layout : Layout) : Except Error Layout :=
  layout.narrow (layout.pieces.length + 1)

def offsetBytes (width : Nat) (distance : Int) : List UInt8 :=
  LittleEndian.toBytes width (ScalarType.encode ⟨width, true⟩ distance)

def resolveBranch (layout : Layout) (addresses : Array Nat) (address : Nat)
    (piece : Piece) : Except Error Piece := do
  let distanceTo (target : Nat) : Except Error Int := do
    let targetAddress ← layout.labelAddress addresses target
    offset targetAddress (address + piece.size)
  match piece with
  | .branch opcode target =>
      let distance ← distanceTo target
      pure (.plain (opcode.bytes ++ offsetBytes 4 distance))
  | .narrowBranch opcode target =>
      let distance ← distanceTo target
      if fitsByte distance then pure (.plain (opcode.bytes ++ offsetBytes 1 distance))
      else throw (.invalidBranch (.outOfShortRange distance))
  | piece => pure piece

def resolveSwitch (layout : Layout) (addresses : Array Nat) (address : Nat) (piece : Piece) :
    Except Error (List UInt8) :=
  match piece with
  | .plain bytes => pure bytes
  | .branch opcode _ => pure opcode.bytes
  | .narrowBranch opcode _ => pure opcode.bytes
  | .switch targets => do
      let distances ← targets.mapM fun target => do
        let targetAddress ← layout.labelAddress addresses target
        offset targetAddress (address + piece.size)
      pure (Opcode.switch.bytes ++ LittleEndian.toBytes 4 targets.length ++
        distances.flatMap (offsetBytes 4))

/-- The code with all offsets filled in: first those of the branches, then
those of the switches. -/
def code (layout : Layout) : Except Error (List UInt8) := do
  let addresses := layout.addresses
  let resolved ← (addresses.toList.zip layout.pieces).mapM fun (address, piece) =>
    layout.resolveBranch addresses address piece
  let parts ← (addresses.toList.zip resolved).mapM fun (address, piece) =>
    layout.resolveSwitch addresses address piece
  pure parts.flatten

end Layout
end CilTemplate
