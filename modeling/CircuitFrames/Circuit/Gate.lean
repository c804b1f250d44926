/-!
# Names of gates and noise channels

Each family is an enumeration with two spellings: `name`, which stands in circuit text, and `tag`,
which stands in stored circuits. A name is looked up by searching the list of the family.
-/

namespace CircuitFrames

/-- Single-qubit gates, resets and measurements. -/
inductive SingleGate
  /-- Identity. -/
  | i
  | x
  | y
  | z
  /-- Reset in the Z basis. -/
  | r
  | rx
  | ry
  /-- Measurement in the Z basis. -/
  | m
  | mx
  | my
  /-- Measurement, then reset, in the Z basis. -/
  | mr
  | mrx
  | mry
  /-- Hadamard. -/
  | h
  /-- Exchanges Y and Z. -/
  | hyz
  /-- Exchanges X and Y. -/
  | hxy
  | s
  | sqrtX
  | sqrtY
  | sDag
  | sqrtXDag
  | sqrtYDag
  /-- Cycles X to Y to Z. -/
  | cxyz
  /-- Cycles Z to Y to X. -/
  | czyx
deriving DecidableEq, Repr

namespace SingleGate

/-- Every single-qubit gate. -/
def all : List SingleGate :=
  [i, x, y, z, r, rx, ry, m, mx, my, mr, mrx, mry, h, hyz, hxy, s, sqrtX, sqrtY, sDag, sqrtXDag,
    sqrtYDag, cxyz, czyx]

/-- The name in circuit text. -/
def name : SingleGate → String
  | i => "I"
  | x => "X"
  | y => "Y"
  | z => "Z"
  | r => "R"
  | rx => "RX"
  | ry => "RY"
  | m => "M"
  | mx => "MX"
  | my => "MY"
  | mr => "MR"
  | mrx => "MRX"
  | mry => "MRY"
  | h => "H"
  | hyz => "H_YZ"
  | hxy => "H_XY"
  | s => "S"
  | sqrtX => "SQRT_X"
  | sqrtY => "SQRT_Y"
  | sDag => "S_DAG"
  | sqrtXDag => "SQRT_X_DAG"
  | sqrtYDag => "SQRT_Y_DAG"
  | cxyz => "C_XYZ"
  | czyx => "C_ZYX"

/-- The spelling in stored circuits. -/
def tag : SingleGate → String
  | hyz => "HYz"
  | hxy => "HXy"
  | sqrtX => "SqrtX"
  | sqrtY => "SqrtY"
  | sDag => "SDag"
  | sqrtXDag => "SqrtXDag"
  | sqrtYDag => "SqrtYDag"
  | cxyz => "CXyz"
  | czyx => "CZyx"
  | gate => gate.name

/-- The gate of a name. -/
def ofName? (name : String) : Option SingleGate :=
  all.find? (·.name == name)

/-- The gate of a stored spelling. -/
def ofTag? (tag : String) : Option SingleGate :=
  all.find? (·.tag == tag)

/-- Whether the gate puts a result on the measurement record. -/
def isMeasurement : SingleGate → Bool
  | m | mx | my | mr | mrx | mry => true
  | _ => false

end SingleGate

/-- Two-qubit gates. A controlled Pauli is named by the bases of its two sides; `CX` is controlled
in the Z basis. -/
inductive PairGate
  | cx
  | cy
  | cz
  | xcx
  | xcy
  | xcz
  | ycx
  | ycy
  | ycz
  | iswap
  | iswapDag
  | swap
deriving DecidableEq, Repr

namespace PairGate

/-- Every two-qubit gate. -/
def all : List PairGate :=
  [cx, cy, cz, xcx, xcy, xcz, ycx, ycy, ycz, iswap, iswapDag, swap]

/-- The name in circuit text. -/
def name : PairGate → String
  | cx => "CX"
  | cy => "CY"
  | cz => "CZ"
  | xcx => "XCX"
  | xcy => "XCY"
  | xcz => "XCZ"
  | ycx => "YCX"
  | ycy => "YCY"
  | ycz => "YCZ"
  | iswap => "ISWAP"
  | iswapDag => "ISWAP_DAG"
  | swap => "SWAP"

/-- The spelling in stored circuits. -/
def tag : PairGate → String
  | iswap => "ISwap"
  | iswapDag => "ISwapDag"
  | swap => "Swap"
  | gate => gate.name

/-- The gate of a name. -/
def ofName? (name : String) : Option PairGate :=
  all.find? (·.name == name)

/-- The gate of a stored spelling. -/
def ofTag? (tag : String) : Option PairGate :=
  all.find? (·.tag == tag)

end PairGate

/-- A declared stochastic error. -/
inductive NoiseChannel
  /-- Bit flip. -/
  | xError
  /-- Bit and phase flip. -/
  | yError
  /-- Phase flip. -/
  | zError
  /-- A correlated Pauli-product error. -/
  | correlatedError
  /-- A correlated error that happens only if the one before it did not. -/
  | elseCorrelatedError
  /-- Single-qubit depolarisation. -/
  | depolarize1
  /-- Two-qubit depolarisation. -/
  | depolarize2
deriving DecidableEq, Repr

namespace NoiseChannel

/-- Every noise channel. -/
def all : List NoiseChannel :=
  [xError, yError, zError, correlatedError, elseCorrelatedError, depolarize1, depolarize2]

/-- The name in circuit text. -/
def name : NoiseChannel → String
  | xError => "X_ERROR"
  | yError => "Y_ERROR"
  | zError => "Z_ERROR"
  | correlatedError => "E"
  | elseCorrelatedError => "ELSE_CORRELATED_ERROR"
  | depolarize1 => "DEPOLARIZE1"
  | depolarize2 => "DEPOLARIZE2"

/-- The spelling in stored circuits. -/
def tag : NoiseChannel → String
  | xError => "XError"
  | yError => "YError"
  | zError => "ZError"
  | correlatedError => "CorrelatedError"
  | elseCorrelatedError => "ElseCorrelatedError"
  | depolarize1 => "Depolarize1"
  | depolarize2 => "Depolarize2"

/-- The short code written beside an affected qubit. Both correlated errors share one. -/
def code : NoiseChannel → String
  | xError => "X"
  | yError => "Y"
  | zError => "Z"
  | correlatedError | elseCorrelatedError => "E"
  | depolarize1 => "D1"
  | depolarize2 => "D2"

/-- The channel of a name. -/
def ofName? (name : String) : Option NoiseChannel :=
  all.find? (·.name == name)

/-- The channel of a stored spelling. -/
def ofTag? (tag : String) : Option NoiseChannel :=
  all.find? (·.tag == tag)

end NoiseChannel

end CircuitFrames
